import ShaderReducer.Shell.Condition
import ShaderReducer.Shell.Glob
import ShaderReducer.Utility.Arguments

/-!
# Utilities for files

Copying, moving, removing, making and listing files and directories. A link is a copy of what it
leads to when it is made.
-/

namespace ShaderReducer

namespace Utility

open Shell

/-! ## Names -/

def trimSlashes (name : String) : String :=
  String.ofList (name.toList.reverse.dropWhile (· == '/')).reverse

def lastName (path : String) : String :=
  let trimmed := trimSlashes path
  if trimmed.isEmpty then if path.isEmpty then "" else "/"
  else String.ofList (trimmed.toList.reverse.takeWhile (· != '/')).reverse

def directoryName (path : String) : String :=
  let trimmed := trimSlashes path
  if trimmed.isEmpty then if path.isEmpty then "." else "/"
  else
    let dir := trimmed.toList.reverse.dropWhile (· != '/')
    if dir.isEmpty then "."
    else
      let dir := trimSlashes (String.ofList dir.reverse)
      if dir.isEmpty then "/" else dir

def inDirectory (directory name : String) : String := (Path.join ⟨directory⟩ name).text

/-- A name without an ending, unless that is all of it. -/
def withoutSuffix (name ending : String) : String :=
  if ending.isEmpty || name == ending then name
  else if ending.toList.reverse.isPrefixOf name.toList.reverse then
    String.ofList (name.toList.take (name.length - ending.length))
  else name

def basename (args : List String) : ShellM Nat :=
  let o := Options.ofLetters "as:z"
    [("multiple", 'a', .nothing), ("suffix", 's', .value), ("zero", 'z', .nothing)]
  withArguments "basename" { o with mixed := false } 1 args fun g => do
    let ending := if g.has 'z' then "\x00" else "\n"
    match g.operands with
    | [] =>
      complain "basename: missing operand"
      return 1
    | names =>
      if g.has 'a' || g.has 's' then
        for n in names do
          emit (withoutSuffix (lastName n) ((g.value? 's').getD "") ++ ending)
        return 0
      match names with
      | [n] => emit (lastName n ++ ending)
      | [n, e] => emit (withoutSuffix (lastName n) e ++ ending)
      | _ :: _ :: extra :: _ =>
        complain ("basename: extra operand '" ++ extra ++ "'")
        return 1
      | [] => pure ()
      return 0

def dirname (args : List String) : ShellM Nat :=
  withArguments "dirname" (Options.ofLetters "z" [("zero", 'z', .nothing)]) 1 args fun g => do
    if g.operands.isEmpty then
      complain "dirname: missing operand"
      return 1
    for n in g.operands do emit (directoryName n ++ if g.has 'z' then "\x00" else "\n")
    return 0

def pathText (location : Location) : String := "/" ++ "/".intercalate (location.map Octets.encode)

def realpath (args : List String) : ShellM Nat :=
  let o := Options.ofLetters "efmnqsz"
    [("canonicalize", 'f', .nothing), ("canonicalize-existing", 'e', .nothing),
     ("canonicalize-missing", 'm', .nothing), ("no-symlinks", 's', .nothing)]
  withArguments "realpath" o 1 args fun g => do
    let mut status := 0
    for name in g.operands do
      match (← get).disk.locate (pathOf name) with
      | .ok location =>
        if g.has 'e' && ((← get).disk.tree.get? location).isNone then
          complainAbout "realpath" name .notFound
          status := 1
        else emit (pathText location ++ if g.has 'n' then "" else "\n")
      | .error fault =>
        complainAbout "realpath" name fault
        status := 1
    return if g.operands.isEmpty then 1 else status

/-- Writes what a link leads to. No path is a link, so that this only finds paths. -/
def readlink (args : List String) : ShellM Nat := do
  let asked := args.any fun a => a.toList.head? == some '-' && a.toList.any fun c =>
    c == 'f' || c == 'e' || c == 'm'
  if asked then realpath args else return 1

/-! ## Copying and moving -/

structure Moving where
  utility : String
  given : Given

def Moving.complain (m : Moving) (text : String) : ShellM Bool := do
  Shell.complain (m.utility ++ ": " ++ text)
  return false

def isSamePlace (disk : Disk) (a b : String) : Bool :=
  match disk.locate (pathOf a), disk.locate (pathOf b) with
  | .ok l, .ok l' => l = l'
  | _, _ => false

/-- Copies a file. A new file can be run if the old one can. -/
def copyFile (m : Moving) (source target : String) : ShellM Bool := do
  match ← readFile source with
  | .error fault => m.complain ("cannot open '" ++ source ++ "' for reading: " ++ faultText fault)
  | .ok text =>
    let isNew := !(Glob.isThere (← get).disk target)
    match ← writeFile target text with
    | some fault =>
      m.complain ("cannot create regular file '" ++ target ++ "': " ++ faultText fault)
    | none => do
      let s ← get
      match s.disk.locate (pathOf source), s.disk.locate (pathOf target) with
      | .ok l, .ok l' =>
        if isNew && s.disk.tree.runs l then set { s with disk := s.disk.commit (.allow l' true) }
      | _, _ => pure ()
      return true

def copyTree (m : Moving) (recursive : Bool) : Nat → String → String → ShellM Bool
  | 0, _, _ => return false
  | depth + 1, source, target => do
    let s ← get
    if s.disk.isDirectory (pathOf source) then
      if !recursive then
        return ← m.complain ("-r not specified; omitting directory '" ++ source ++ "'")
      if s.disk.isFile (pathOf target) then
        return ← m.complain ("cannot overwrite non-directory '" ++ target ++ "' with directory '" ++
          source ++ "'")
      match s.disk.locate (pathOf source), s.disk.locate (pathOf target) with
      | .ok l, .ok l' =>
        if l.isPrefixOf l' then
          return ← m.complain ("cannot copy a directory, '" ++ source ++ "', into itself, '" ++
            target ++ "'")
      | _, _ => pure ()
      let names := Glob.namesIn s.disk source
      if !s.disk.isDirectory (pathOf target) then
        match ← change (·.makeDirectory (pathOf target)) with
        | some fault =>
          return ← m.complain ("cannot create directory '" ++ target ++ "': " ++ faultText fault)
        | none => pure ()
      let mut done := true
      for n in names do
        if !(← copyTree m recursive depth (inDirectory source n) (inDirectory target n)) then
          done := false
      return done
    else copyFile m source target

def deepestDirectory : Nat := 100

def copyOne (m : Moving) (source target : String) : ShellM Bool := do
  let disk := (← get).disk
  let isDevice := systemDevices.contains source || (systemDescriptor? source).isSome
  if !isDevice && !Glob.isThere disk source then
    return ← m.complain ("cannot stat '" ++ source ++ "': " ++ faultText .notFound)
  if !isDevice && Glob.isThere disk target && isSamePlace disk source target then
    return ← m.complain ("'" ++ source ++ "' and '" ++ target ++ "' are the same file")
  if m.given.has 'n' && Glob.isThere disk target then return true
  if disk.isFile (pathOf source) && disk.isDirectory (pathOf target) then
    return ← m.complain ("cannot overwrite directory '" ++ target ++ "' with non-directory")
  let recursive := ['r', 'R', 'a'].any m.given.has
  copyTree m recursive deepestDirectory source target

def moveOne (m : Moving) (source target : String) : ShellM Bool := do
  let disk := (← get).disk
  if !Glob.isThere disk source then
    return ← m.complain ("cannot stat '" ++ source ++ "': " ++ faultText .notFound)
  if Glob.isThere disk target && isSamePlace disk source target then
    return ← m.complain ("'" ++ source ++ "' and '" ++ target ++ "' are the same file")
  if m.given.has 'n' && Glob.isThere disk target then return true
  let isDirectory := disk.isDirectory (pathOf source)
  let goal := if isDirectory then trimSlashes target else target
  if isDirectory && disk.isFile (pathOf target) then
    return ← m.complain ("cannot overwrite non-directory '" ++ target ++ "' with directory '" ++
      source ++ "'")
  match ← change (·.rename (pathOf (if isDirectory then trimSlashes source else source))
      (pathOf goal)) with
  | none => return true
  | some fault =>
    m.complain ("cannot move '" ++ source ++ "' to '" ++ target ++ "': " ++ faultText fault)

def transfer (m : Moving) (one : String → String → ShellM Bool) : ShellM Nat := do
  let g := m.given
  let (sources, target, into) := match g.value? 't' with
    | some dir => (g.operands, dir, true)
    | none => (g.operands.dropLast, g.operands.getLast?.getD "", false)
  match g.operands with
  | [] =>
    let _ ← m.complain "missing file operand"
    return 1
  | first :: _ =>
    if sources.isEmpty then
      let _ ← m.complain ("missing destination file operand after '" ++ first ++ "'")
      return 1
    let isDirectory := (← get).disk.isDirectory (pathOf target) && !g.has 'T'
    if (into || 1 < sources.length) && !isDirectory then
      let _ ← m.complain ("target '" ++ target ++ "': " ++
        faultText (if Glob.isThere (← get).disk target then .notDirectory else .notFound))
      return 1
    let mut status := 0
    for source in sources do
      let goal := if isDirectory then inDirectory target (lastName source) else target
      if !(← one source goal) then status := 1
    return status

def movingOptions : Options :=
  Options.ofLetters "abdfHilLnpPrRsS:t:TuvxzZ"
    [("recursive", 'r', .nothing), ("archive", 'a', .nothing), ("force", 'f', .nothing),
     ("no-clobber", 'n', .nothing), ("target-directory", 't', .value), ("verbose", 'v', .nothing),
     ("no-target-directory", 'T', .nothing), ("interactive", 'i', .nothing),
     ("preserve", 'p', .joined), ("update", 'u', .joined), ("dereference", 'L', .nothing)]

def cp (args : List String) : ShellM Nat :=
  withArguments "cp" movingOptions 1 args fun g =>
    let m : Moving := ⟨"cp", g⟩
    transfer m (copyOne m)

def mv (args : List String) : ShellM Nat :=
  withArguments "mv" movingOptions 1 args fun g =>
    let m : Moving := ⟨"mv", g⟩
    transfer m (moveOne m)

def ln (args : List String) : ShellM Nat :=
  withArguments "ln" movingOptions 1 args fun g => do
    let m : Moving := ⟨"ln", g⟩
    let link (source target : String) : ShellM Bool := do
      if Glob.isThere (← get).disk target then
        if g.has 'f' then
          let _ ← change (·.remove (pathOf target))
        else
          return ← m.complain ("failed to create link '" ++ target ++ "': " ++
            faultText .alreadyThere)
      let source' :=
        if g.has 's' && source.toList.head? != some '/' then
          inDirectory (directoryName target) source
        else source
      if Glob.isThere (← get).disk source' then copyTree m (g.has 's') deepestDirectory source' target
      else if g.has 's' then return true
      else m.complain ("failed to access '" ++ source ++ "': " ++ faultText .notFound)
    match g.operands with
    | [source] => return if ← link source (lastName source) then 0 else 1
    | _ => transfer m link

/-! ## Removing and making -/

def removeAll (location : Location) : ShellM Unit :=
  modify fun s =>
    let held := (location :: (s.disk.below location).map Prod.fst).mergeSort fun a b =>
      b.length ≤ a.length
    { s with disk := held.foldl (fun d l => d.commit (.remove l)) s.disk }

def rm (args : List String) : ShellM Nat :=
  let o := Options.ofLetters "dfiIrRv"
    [("recursive", 'r', .nothing), ("force", 'f', .nothing), ("dir", 'd', .nothing),
     ("interactive", 'i', .joined), ("verbose", 'v', .nothing)]
  withArguments "rm" o 1 args fun g => do
    let refuse (text : String) : ShellM Bool := do
      complain ("rm: " ++ text)
      return false
    if g.operands.isEmpty then
      if g.has 'f' then return 0
      complain "rm: missing operand"
      return 1
    forOperands 1 g.operands fun file => do
      let disk := (← get).disk
      match disk.locate (pathOf file), disk.entry (pathOf file) with
      | .ok location, .ok .directory =>
        if g.has 'r' || g.has 'R' then
          let last := lastName file
          if last == "." || last == ".." then
            refuse ("refusing to remove '.' or '..' directory: skipping '" ++ file ++ "'")
          else
            removeAll location
            return true
        else if g.has 'd' then
          match ← change (·.removeDirectory (pathOf file)) with
          | none => return true
          | some fault => refuse ("cannot remove '" ++ file ++ "': " ++ faultText fault)
        else refuse ("cannot remove '" ++ file ++ "': " ++ faultText .isDirectory)
      | _, .ok _ =>
        let _ ← change (·.remove (pathOf file))
        return true
      | _, .error fault =>
        if g.has 'f' && (fault == .notFound || fault == .notDirectory) then return true
        else refuse ("cannot remove '" ++ file ++ "': " ++ faultText fault)

/-- Makes a directory and those above it that are not there, one name after the other. -/
def makeAlong (start : String) : List String → ShellM (Option FileFault)
  | [] => return none
  | name :: rest => do
    let path := start ++ name
    let disk := (← get).disk
    if name.isEmpty || disk.isDirectory (pathOf path) then makeAlong (path ++ "/") rest
    else
      match ← change (·.makeDirectory (pathOf path)) with
      | none => makeAlong (path ++ "/") rest
      | some fault => return some fault

def mkdir (args : List String) : ShellM Nat :=
  let o := Options.ofLetters "m:pv"
    [("parents", 'p', .nothing), ("mode", 'm', .value), ("verbose", 'v', .nothing)]
  withArguments "mkdir" o 1 args fun g => do
    if g.operands.isEmpty then
      complain "mkdir: missing operand"
      return 1
    forOperands 1 g.operands fun name => do
      let fault ←
        if g.has 'p' then makeAlong "" ((Text.splitOn '/' name.toList).map String.ofList)
        else change (·.makeDirectory (pathOf name))
      match fault with
      | none =>
        if g.has 'v' then emit ("mkdir: created directory '" ++ name ++ "'\n")
        return true
      | some fault =>
        complain ("mkdir: cannot create directory '" ++ name ++ "': " ++ faultText fault)
        return false

def andAbove : Nat → String → List String
  | 0, _ => []
  | fuel + 1, path =>
    let above := directoryName path
    if above == "." || above == "/" then [path] else path :: andAbove fuel above

def rmdir (args : List String) : ShellM Nat :=
  let o := Options.ofLetters "pv"
    [("parents", 'p', .nothing), ("ignore-fail-on-non-empty", 'g', .nothing),
     ("verbose", 'v', .nothing)]
  withArguments "rmdir" o 1 args fun g => do
    if g.operands.isEmpty then
      complain "rmdir: missing operand"
      return 1
    forOperands 1 g.operands fun name => do
      for path in if g.has 'p' then andAbove name.length name else [name] do
        match ← change (·.removeDirectory (pathOf path)) with
        | none => pure ()
        | some fault =>
          if g.has 'g' && fault == .notEmpty then return true
          complain ("rmdir: failed to remove '" ++ path ++ "': " ++ faultText fault)
          return false
      return true

def touch (args : List String) : ShellM Nat :=
  let o := Options.ofLetters "acd:fhmr:t:"
    [("no-create", 'c', .nothing), ("date", 'd', .value), ("reference", 'r', .value)]
  withArguments "touch" o 1 args fun g => do
    if g.operands.isEmpty then
      complain "touch: missing file operand"
      return 1
    forOperands 1 g.operands fun name => do
      let disk := (← get).disk
      if Glob.isThere disk name || g.has 'c' || systemDevices.contains name then return true
      match ← writeFile name [] with
      | none => return true
      | some fault =>
        complain ("touch: cannot touch '" ++ name ++ "': " ++ faultText fault)
        return false

def runsAfter (runs : Bool) (clause : List Char) : Option Bool :=
  let who := clause.takeWhile fun c => "ugoa".toList.contains c
  let rec go (runs : Bool) : Nat → List Char → Option Bool
    | 0, _ => none
    | _, [] => some runs
    | fuel + 1, sign :: rest =>
      if !("+-=".toList.contains sign) then none
      else
        let letters := rest.takeWhile fun c => "rwxXst".toList.contains c
        let after := rest.drop letters.length
        let names := letters.contains 'x' || (letters.contains 'X' && runs)
        let counts := who.isEmpty || who.contains 'u' || who.contains 'a' || sign == '+'
        let next := match sign with
          | '+' => runs || names
          | '-' => if names && counts then false else runs
          | _ => if counts then names else runs
        go next fuel after
  let actions := clause.drop who.length
  if actions.isEmpty then none else go runs (actions.length + 1) actions

def modeAfter? (runs : Bool) (mode : String) : Option Bool :=
  if !mode.isEmpty && mode.toList.all fun c => '0' ≤ c && c ≤ '7' then
    some (mode.toList.reverse.take 3 |>.any fun c => c.toNat % 2 == 1)
  else (Text.splitOn ',' mode.toList).foldl (fun runs clause =>
    runs.bind fun runs => runsAfter runs clause) (some runs)

def chmod (args : List String) : ShellM Nat := do
  let flags := args.filter fun a => a.toList.head? == some '-' &&
    (a.toList.drop 1).all fun c => "Rfvc".toList.contains c
  let rest := args.filter fun a => !flags.contains a && a != "--"
  match rest with
  | [] | [_] =>
    complain "chmod: missing operand"
    return 1
  | mode :: files =>
    if (modeAfter? false mode).isNone then
      complain ("chmod: invalid mode: '" ++ mode ++ "'")
      return 1
    let recursive := flags.any fun f => f.toList.contains 'R'
    forOperands 1 files fun name => do
      let s ← get
      match s.disk.locate (pathOf name), s.disk.entry (pathOf name) with
      | .ok location, .ok entry =>
        let held := if recursive then (s.disk.below location).map Prod.fst else []
        for l in (match entry with
            | .directory => held
            | .file .. => [location]) do
          modify fun s =>
            match modeAfter? (s.disk.tree.runs l) mode with
            | some runs => { s with disk := s.disk.commit (.allow l runs) }
            | none => s
        return true
      | _, _ =>
        complain ("chmod: cannot access '" ++ name ++ "': " ++ faultText .notFound)
        return false

def truncate (args : List String) : ShellM Nat :=
  let o := Options.ofLetters "cos:r:"
    [("size", 's', .value), ("no-create", 'c', .nothing), ("reference", 'r', .value)]
  withArguments "truncate" o 1 args fun g => do
    match (g.value? 's').bind wholeNumber? with
    | none =>
      complain "truncate: you must specify either '--size' or '--reference'"
      return 1
    | some n =>
      forOperands 1 g.operands fun name => do
        let before := match ← readFile name with
          | .ok text => text
          | .error _ => []
        let grows := (g.value? 's').any fun v => v.toList.head? == some '+'
        let size := if grows || n < 0 then (Int.ofNat before.length + n).toNat else n.toNat
        let text := before.take size ++ List.replicate (size - before.length) '\x00'
        return (← writeFile name text).isNone

def mktemp (args : List String) : ShellM Nat :=
  let o := Options.ofLetters "dp:qtu"
    [("directory", 'd', .nothing), ("tmpdir", 'p', .joined), ("suffix", 's', .value),
     ("dry-run", 'u', .nothing), ("quiet", 'q', .nothing)]
  withArguments "mktemp" o 1 args fun g => do
    let number := (← get).nextNumber
    modify fun s => { s with nextNumber := number + 1 }
    let template := (g.operands.head?).getD "tmp.XXXXXXXXXX"
    let reversed := template.toList.reverse
    let places := (reversed.takeWhile (· == 'X')).length
    if places < 3 then
      complain ("mktemp: too few X's in template '" ++ template ++ "'")
      return 1
    let digits := Nat.toDigits 10 number
    let filled := digits ++ List.replicate (places - digits.length) 'a'
    let name := String.ofList ((reversed.drop places).reverse ++ filled) ++
      (g.value? 's').getD ""
    let inTemporary := g.operands.isEmpty || g.has 't' || g.has 'p'
    let directory := match g.value? 'p' with
      | some d => if d.isEmpty then "/tmp" else d
      | none => "/tmp"
    let path := if inTemporary then inDirectory directory name else name
    let fault ←
      if g.has 'u' then pure none
      else if g.has 'd' then change (·.makeDirectory (pathOf path))
      else writeFile path []
    match fault with
    | some fault =>
      complain ("mktemp: failed to create file via template '" ++ template ++ "': " ++
        faultText fault)
      return 1
    | none =>
      emit (path ++ "\n")
      return 0

/-! ## Listing -/

def listed (g : Given) (directory name : String) : ShellM String := do
  let disk := (← get).disk
  let path := if directory.isEmpty then name else inDirectory directory name
  let isDirectory := disk.isDirectory (pathOf path)
  let runs := match disk.locate (pathOf path) with
    | .ok l => disk.tree.runs l
    | .error _ => false
  let mark := if isDirectory && (g.has 'p' || g.has 'F') then "/"
    else if runs && g.has 'F' then "*" else ""
  if g.has 'l' || g.has 'n' || g.has 'o' || g.has 'g' then
    let size := match disk.read (pathOf path) with
      | .ok bytes => bytes.length
      | .error _ => 4096
    let mode := if isDirectory then "drwxr-xr-x 2" else if runs then "-rwxr-xr-x 1"
      else "-rw-r--r-- 1"
    return mode ++ " root root " ++ toString size ++ " Jan  1 00:00 " ++ name ++ mark
  else return name ++ mark

def inListOrder (g : Given) (directory : String) (names : List String) : ShellM (List String) := do
  let disk := (← get).disk
  let sizeOf (name : String) : Nat :=
    match disk.read (pathOf (if directory.isEmpty then name else inDirectory directory name)) with
    | .ok bytes => bytes.length
    | .error _ => 4096
  let names := names.mergeSort (· ≤ ·)
  let names := if g.has 'S' then names.mergeSort fun a b => sizeOf b ≤ sizeOf a else names
  return if g.has 'r' then names.reverse else names

def writeListing (g : Given) (directory : String) (names : List String) : ShellM Unit := do
  if g.has 'm' then
    if !names.isEmpty then emit (", ".intercalate names ++ "\n")
  else
    for n in names do emit ((← listed g directory n) ++ "\n")

def listDirectory (g : Given) : Nat → Bool → Bool → String → ShellM Unit
  | 0, _, _, _ => return
  | depth + 1, heading, isFirst, directory => do
    if !isFirst then emit "\n"
    if heading then emit (directory ++ ":\n")
    let all := Glob.namesIn (← get).disk directory
    let shown := if g.has 'a' || g.has 'A' then all
      else all.filter fun n => n.toList.head? != some '.'
    let shown := if g.has 'a' then "." :: ".." :: shown else shown
    let names ← inListOrder g directory shown
    if g.has 'l' || g.has 's' then emit "total 0\n"
    writeListing g directory names
    if g.has 'R' then
      for n in names do
        let path := inDirectory directory n
        if n != "." && n != ".." && (← get).disk.isDirectory (pathOf path) then
          listDirectory g depth true false path

def ls (args : List String) : ShellM Nat :=
  let o := Options.ofLetters "1aAbBcCdDfFgGhHiklLmnNopqQrRsStTuUvw:xXZ"
    [("all", 'a', .nothing), ("almost-all", 'A', .nothing), ("directory", 'd', .nothing),
     ("recursive", 'R', .nothing), ("reverse", 'r', .nothing), ("color", 'G', .joined),
     ("classify", 'F', .joined), ("size", 's', .nothing)]
  withArguments "ls" o 2 args fun g => do
    let names := if g.operands.isEmpty then ["."] else g.operands
    let mut status := 0
    let mut files : List String := []
    let mut directories : List String := []
    for n in names do
      let disk := (← get).disk
      match disk.entry (pathOf n) with
      | .ok .directory =>
        if g.has 'd' then files := files ++ [n] else directories := directories ++ [n]
      | .ok _ => files := files ++ [n]
      | .error fault =>
        if systemDevices.contains n || systemFiles.contains n then files := files ++ [n]
        else
          complain ("ls: cannot access '" ++ n ++ "': " ++ faultText fault)
          status := 2
    writeListing g "" (← inListOrder g "" files)
    let heading := 1 < names.length || g.has 'R'
    let mut isFirst := files.isEmpty
    for d in ← inListOrder g "" directories do
      listDirectory g deepestDirectory heading isFirst d
      isFirst := false
    return status

def stat (args : List String) : ShellM Nat :=
  let o := Options.ofLetters "c:fLt"
    [("format", 'c', .value), ("printf", 'p', .value), ("dereference", 'L', .nothing)]
  withArguments "stat" o 1 args fun g => do
    if g.operands.isEmpty then
      complain "stat: missing operand"
      return 1
    forOperands 1 g.operands fun name => do
      let disk := (← get).disk
      match disk.entry (pathOf name) with
      | .error fault =>
        complain ("stat: cannot statx '" ++ name ++ "': " ++ faultText fault)
        return false
      | .ok entry =>
        let (size, kind, mode) := match entry with
          | .directory => (4096, "directory", "755")
          | .file bytes runs =>
            (bytes.length, if bytes.isEmpty then "regular empty file" else "regular file",
              if runs then "755" else "644")
        let rec fill : List Char → List Char
          | '%' :: 's' :: rest => (toString size).toList ++ fill rest
          | '%' :: 'n' :: rest => name.toList ++ fill rest
          | '%' :: 'F' :: rest => kind.toList ++ fill rest
          | '%' :: 'a' :: rest => mode.toList ++ fill rest
          | '%' :: '%' :: rest => '%' :: fill rest
          | c :: rest => c :: fill rest
          | [] => []
        match g.value? 'c' with
        | some format => emitList (fill format.toList ++ ['\n'])
        | none => emit ("  File: " ++ name ++ "\n  Size: " ++ toString size ++ "\n")
        return true

/-! ## Streams -/

def shownChar (c : Char) : List Char :=
  let n := c.toNat
  let plain (n : Nat) : List Char :=
    if n < 0x20 then ['^', Char.ofNat (n + 0x40)]
    else if n == 0x7F then ['^', '?']
    else [Char.ofNat n]
  if n < 0x80 then plain n else 'M' :: '-' :: plain (n - 0x80)

def shownLine (g : Given) (line : List Char) : List Char :=
  let visible := g.has 'v' || g.has 'A' || g.has 'e' || g.has 't'
  let tabs := g.has 'T' || g.has 'A' || g.has 't'
  let ends := g.has 'E' || g.has 'A' || g.has 'e'
  line.flatMap fun c =>
    if c == '\n' then if ends then ['$', '\n'] else ['\n']
    else if c == '\t' then if tabs then ['^', 'I'] else ['\t']
    else if visible then shownChar c else [c]

def feedsItself (location : Location) (position : Nat) : ShellM Bool := do
  let s ← get
  match s.opening? 1 with
  | some (_, ⟨.file l p appends, _, _⟩) =>
    return l = location && position < (if appends then (s.bytesAt l).length else p)
  | _ => return false

def cat (args : List String) : ShellM Nat :=
  let o := Options.ofLetters "AbeEnstTuv"
    [("number", 'n', .nothing), ("number-nonblank", 'b', .nothing), ("show-all", 'A', .nothing),
     ("squeeze-blank", 's', .nothing), ("show-ends", 'E', .nothing), ("show-tabs", 'T', .nothing),
     ("show-nonprinting", 'v', .nothing)]
  withArguments "cat" o 1 args fun g => do
    let mut text : List Char := []
    let mut status := 0
    let shows := !g.options.isEmpty
    for file in if g.operands.isEmpty then ["-"] else g.operands do
      let s ← get
      let source : Option (Location × Nat) :=
        if file == "-" then
          match s.opening? 0 with
          | some (_, ⟨.file l p _, _, _⟩) => some (l, p)
          | _ => none
        else match s.disk.locate (pathOf file) with
          | .ok l => some (l, 0)
          | .error _ => none
      let loops ← match source with
        | some (l, p) => feedsItself l p
        | none => pure false
      if loops then
        complain ("cat: " ++ file ++ ": input file is output file")
        status := 1
      else
        match ← readOperand "cat" file with
        | none => status := 1
        | some more => if shows then text := text ++ more else emitList more
    if !shows then return status
    let mut number := 0
    let mut blanks := 0
    for line in wholeLines '\n' text do
      let isBlank := line == ['\n']
      blanks := if isBlank then blanks + 1 else 0
      if !(g.has 's' && 1 < blanks) then
        if g.has 'b' then
          if !isBlank then
            number := number + 1
            emitList (padLeft 6 (toString number).toList ++ ['\t'])
        else if g.has 'n' then
          number := number + 1
          emitList (padLeft 6 (toString number).toList ++ ['\t'])
        emitList (shownLine g line)
    return status

def tee (args : List String) : ShellM Nat :=
  let o := Options.ofLetters "aip" [("append", 'a', .nothing), ("ignore-interrupts", 'i', .nothing)]
  withArguments "tee" o 1 args fun g => do
    let mut places : List Nat := []
    let mut status := 0
    for file in g.operands do
      match ← openPath file (if g.has 'a' then .append else .write) with
      | .ok place => places := places ++ [place]
      | .error fault =>
        complainAbout "tee" file fault
        status := 1
    let text := (← readRest 0).getD []
    emitList text
    for place in places do
      let _ ← writeAt place text
    return status

end Utility

end ShaderReducer
