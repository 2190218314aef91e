import ShaderReducer.Proofs.Parser.SoundStmt
import ShaderReducer.Proofs.Token.Written

/-!
# What is read as a program is valid

A program that a source stands for can be read again, the source holds no malformed token, and there
are as many points in it as members in the program.
-/

namespace ShaderReducer

namespace Parser

variable {t : Token} {ts mid rest after : List Token}

/-! ## Structures -/

theorem sound_fieldsMore {type : TypeSpec} {ts rest : List Token} {fields : List FieldDecl}
    (hts : Genuine ts) (htype : type.Valid) (h : Reads (fieldsMore type ts) fields rest) :
    (∀ field ∈ fields, field.Valid) ∧ Passes ts rest 0 0 := by
  match ts, hts with
  | [], _ =>
    rw [fieldsMore] at h
    exact (reads_error.mp h).elim
  | t :: after, hts =>
    by_cases hcomma : t.kind = .symbol .comma
    · obtain ⟨t', after', size, mid, more, heq, ht', hsize, hmore, rfl⟩ :=
        (reads_fieldsMore_comma hcomma).mp h
      have hlt := hsize.lt
      have hlength : after'.length < after.length := heq ▸ tail_lt t' after'
      rw [heq] at hts ⊢
      obtain ⟨hsize, hpasses⟩ := sound_arraySize hsize
      obtain ⟨hvalid, hpasses'⟩ :=
        sound_fieldsMore (hts.tail.tail.of_suffix hpasses.suffix) htype hmore
      exact ⟨List.forall_mem_cons.mpr ⟨⟨htype, hts.tail.name ht', hsize⟩, hvalid⟩,
        ((hpasses.trans hpasses').name ht').symbol hcomma (by simp)⟩
    · obtain ⟨hclose, rfl, rfl⟩ := (reads_fieldsMore_stop hcomma).mp h
      exact ⟨List.forall_mem_nil _, (Passes.refl rest 0).symbol hclose (by simp)⟩
termination_by ts.length
decreasing_by
  all_goals simp only [List.length_cons] at *
  all_goals omega

theorem sound_structFields {ts rest : List Token} {fields : List FieldDecl} (hts : Genuine ts)
    (h : Reads (structFields ts) fields rest) :
    (∀ field ∈ fields, field.Valid) ∧ Passes ts rest 0 0 := by
  match ts, hts with
  | [], _ =>
    rw [structFields] at h
    exact (reads_error.mp h).elim
  | t :: after, hts =>
    by_cases hclose : t.kind = .symbol .rBrace
    · obtain ⟨rfl, rfl⟩ := (reads_structFields_nil hclose).mp h
      exact ⟨List.forall_mem_nil _, (Passes.refl rest 0).symbol hclose (by simp)⟩
    · have hopen : headKind (t :: after) ≠ .symbol .rBrace := hclose
      obtain ⟨type, t', after', size, mid, same, mid', more, htype, ht', hsize, hsame, hmore, rfl⟩ :=
        (reads_structFields_cons hopen (List.cons_ne_nil t after)).mp h
      have hlt := htype.lt
      have hlt' := hsize.lt
      have hlt'' := hsame.lt
      obtain ⟨htype, hpasses⟩ := sound_typeSpec hts htype
      have hafter := hts.of_suffix hpasses.suffix
      obtain ⟨hsize, hpasses'⟩ := sound_arraySize hsize
      have hmid := hafter.tail.of_suffix hpasses'.suffix
      obtain ⟨hsame, hpasses''⟩ := sound_fieldsMore hmid htype hsame
      obtain ⟨hmore, hpasses'''⟩ := sound_structFields (hmid.of_suffix hpasses''.suffix) hmore
      refine ⟨List.forall_mem_cons.mpr ⟨⟨htype, hafter.name ht', hsize⟩, fun f hf => ?_⟩,
        hpasses.trans ((hpasses'.trans (hpasses''.trans hpasses''')).name ht')⟩
      exact (List.mem_append.mp hf).elim (hsame f) (hmore f)
termination_by ts.length
decreasing_by
  all_goals simp only [List.length_cons] at *
  all_goals omega

theorem sound_structDecl {decl : StructDecl} (hts : Genuine ts) (h : Reads (structDecl ts) decl rest) :
    decl.Valid ∧ Passes ts rest 0 0 := by
  obtain ⟨t, t', after, fields, t'', rfl, ht, ht', hfields, ht'', rfl⟩ := reads_structDecl.mp h
  obtain ⟨hfields, hpasses⟩ := sound_structFields hts.tail.tail hfields
  have hclose := (Passes.refl rest 0).symbol ht'' (by simp)
  exact ⟨⟨hts.name ht, hfields⟩, ((hpasses.trans hclose).symbol ht' (by simp)).name ht⟩

/-! ## Functions -/

theorem sound_param {p : Param} (hts : Genuine ts) (h : Reads (param ts) p rest) :
    p.Valid ∧ Passes ts rest 0 0 := by
  obtain ⟨type, mid, htype, ⟨t, after, size, rfl, ht, hsize, rfl⟩ | ⟨-, rfl, rfl⟩⟩ :=
    reads_param.mp h
  · obtain ⟨htype, hpasses⟩ := sound_typeSpec hts htype
    have hafter := hts.of_suffix hpasses.suffix
    obtain ⟨hsize, hpasses'⟩ := sound_arraySize hsize
    refine ⟨⟨htype, fun name hname => ?_, hsize, fun hnone => nomatch hnone⟩,
      hpasses.trans (hpasses'.name ht)⟩
    cases hname
    exact hafter.name ht
  · obtain ⟨htype, hpasses⟩ := sound_typeSpec hts htype
    exact ⟨⟨htype, fun _ hname => (nomatch hname), fun _ hn => (nomatch hn), fun _ => rfl⟩, hpasses⟩

theorem sound_paramsMore {ts rest : List Token} {ps : List Param} (hts : Genuine ts)
    (h : Reads (paramsMore ts) ps rest) : (∀ p ∈ ps, p.Valid) ∧ Passes ts rest 0 0 := by
  match ts, hts with
  | [], _ =>
    rw [paramsMore] at h
    exact (reads_error.mp h).elim
  | t :: after, hts =>
    by_cases hcomma : t.kind = .symbol .comma
    · obtain ⟨next, mid, more, hnext, hmore, rfl⟩ := (reads_paramsMore_comma hcomma).mp h
      have hlt := hnext.lt
      obtain ⟨hnext, hpasses⟩ := sound_param hts.tail hnext
      obtain ⟨hmore, hpasses'⟩ := sound_paramsMore (hts.tail.of_suffix hpasses.suffix) hmore
      exact ⟨List.forall_mem_cons.mpr ⟨hnext, hmore⟩,
        (hpasses.trans hpasses').symbol hcomma (by simp)⟩
    · obtain ⟨hclose, rfl, rfl⟩ := (reads_paramsMore_stop hcomma).mp h
      exact ⟨List.forall_mem_nil _, (Passes.refl rest 0).symbol hclose (by simp)⟩
termination_by ts.length
decreasing_by
  all_goals simp only [List.length_cons] at *
  all_goals omega

theorem sound_params {ps : List Param} (hts : Genuine ts) (h : Reads (params ts) ps rest) :
    (∀ p ∈ ps, p.Valid) ∧ Passes ts rest 0 0 := by
  by_cases hclose : headKind ts = .symbol .rParen
  · match ts with
    | [] => cases hclose
    | t :: after =>
      obtain ⟨rfl, rfl⟩ := (reads_params_nil hclose).mp h
      exact ⟨List.forall_mem_nil _, (Passes.refl rest 0).symbol hclose (by simp)⟩
  · obtain ⟨first, mid, more, hfirst, hmore, rfl⟩ := (reads_params_cons hclose).mp h
    obtain ⟨hfirst, hpasses⟩ := sound_param hts hfirst
    obtain ⟨hmore, hpasses'⟩ := sound_paramsMore (hts.of_suffix hpasses.suffix) hmore
    exact ⟨List.forall_mem_cons.mpr ⟨hfirst, hmore⟩, hpasses.trans hpasses'⟩

theorem withoutVoid_cases (ps : List Param) : withoutVoid ps = [] ∨ withoutVoid ps = ps := by
  unfold withoutVoid
  split
  · exact .inl rfl
  · exact .inr rfl

theorem withoutVoid_withoutVoid (ps : List Param) :
    withoutVoid (withoutVoid ps) = withoutVoid ps := by
  obtain h | h := withoutVoid_cases ps <;> rw [h]
  · rfl
  · exact h

theorem mem_of_mem_withoutVoid {ps : List Param} {p : Param} (h : p ∈ withoutVoid ps) : p ∈ ps := by
  obtain hps | hps := withoutVoid_cases ps <;> rw [hps] at h
  · cases h
  · exact h

/-! ## Declarations -/

/-- What is read as a declaration is valid and has the members read. -/
structure SoundDecl (ts : List Token) (d : DeclTree Unit Unit) (rest : List Token) : Prop where
  valid : DeclTree.Valid (Expr.Valid Literal.IsGenuine) d
  passes : Passes ts rest 0 (DeclTree.members d)

theorem SoundVars.decl {decl : VarDecl (Expr Unit)} (h : SoundVars ts decl rest) :
    SoundDecl ts (.vars decl) rest := by
  refine ⟨⟨h.named, fun _ hs => (nomatch hs), h.inits⟩, ?_⟩
  rw [DeclTree.members_eq]
  exact h.passes

theorem sound_function {type : TypeSpec} {name : String} {ps : List Param}
    {body : Option (Stmt Unit Unit)} (hts : Genuine ts) (htype : type.Valid) (hname : IsName name)
    (hps : Reads (params ts) ps mid) (hbody : Reads (functionBody mid) body rest) :
    SoundDecl ts (.function ⟨type, name, withoutVoid ps, body⟩) rest := by
  obtain ⟨hps, hpasses⟩ := sound_params hts hps
  have hnamed : FunctionDecl.Named ⟨type, name, withoutVoid ps, body⟩ :=
    ⟨htype, hname, fun p hp => hps p (mem_of_mem_withoutVoid hp), withoutVoid_withoutVoid ps⟩
  obtain ⟨t, rfl, ht, rfl⟩ | ⟨s, hs, rfl⟩ := reads_functionBody.mp hbody
  · exact ⟨⟨⟨hnamed, fun _ hs => (nomatch hs)⟩, fun _ hs => (nomatch hs), fun _ he => (nomatch he)⟩,
      hpasses.trans ((Passes.refl rest 0).symbol ht (by simp))⟩
  · obtain ⟨hsound, hblock⟩ := sound_blockStatement (hts.of_suffix hpasses.suffix) hs
    refine ⟨⟨⟨hnamed, fun s' hs' => ?_⟩, List.forall_mem_singleton.mpr hsound.valid,
      fun _ he => (nomatch he)⟩, ?_⟩
    · cases hs'
      exact hblock
    · rw [DeclTree.members_eq]
      simpa [Decl.inits, Decl.bodies] using hpasses.trans hsound.passes

/-- What is read at top level. -/
theorem sound_top {d : Option (DeclTree Unit Unit)} (hts : Genuine ts) (h : ReadsTop ts d rest) :
    (∀ d' ∈ d, DeclTree.Valid (Expr.Valid Literal.IsGenuine) d') ∧
      Passes ts rest 0 (d.toList.map DeclTree.members).sum := by
  have hsome : ∀ {d : DeclTree Unit Unit}, SoundDecl ts d rest →
      (∀ d' ∈ some d, DeclTree.Valid (Expr.Valid Literal.IsGenuine) d') ∧
        Passes ts rest 0 ((some d).toList.map DeclTree.members).sum := by
    intro d hsound
    refine ⟨fun d' hd' => ?_, by simpa using hsound.passes⟩
    cases hd'
    exact hsound.valid
  cases h with
  | @directive t rest ht =>
      have htext := hts t List.mem_cons_self (by rw [ht]; rfl)
      rw [ht] at htext
      exact hsome ⟨⟨htext, fun _ hs => (nomatch hs), fun _ he => (nomatch he)⟩,
        (Passes.refl rest 0).cons (by rw [ht]; rfl) (by simp [ht])⟩
  | semicolon ht => exact ⟨fun _ hd => (nomatch hd), (Passes.refl rest 0).symbol ht (by simp)⟩
  | precision ht hd =>
      obtain ⟨t₁, t₂, t₃, level, rfl, hlevel, ht₂, ht₃, rfl⟩ := reads_precisionDecl.mp hd
      have hword : ∃ word, t₁.kind = .keyword word := by
        unfold precision? at hlevel
        split at hlevel <;> first | exact ⟨_, ‹_›⟩ | cases hlevel
      obtain ⟨word, hword⟩ := hword
      exact hsome ⟨⟨hts.tail.tail.name ht₂, fun _ hs => (nomatch hs), fun _ he => (nomatch he)⟩,
        ((((Passes.refl rest 0).symbol ht₃ (by simp)).name ht₂).keyword hword).keyword ht⟩
  | struct ht hd =>
      obtain ⟨hvalid, hpasses⟩ := sound_structDecl hts.tail hd
      exact hsome ⟨⟨hvalid, fun _ hs => (nomatch hs), fun _ he => (nomatch he)⟩, hpasses.keyword ht⟩
  | @typed t t' after mid rest type d ht htype ht' hd =>
      obtain ⟨hvalid, hpasses⟩ := sound_typeSpec hts htype
      have hmid := hts.of_suffix hpasses.suffix
      by_cases hopen : headKind mid = .symbol .lParen
      · match mid with
        | [] => cases hopen
        | t'' :: mid =>
          obtain ⟨ps, mid', body, hps, hbody, rfl⟩ := (reads_functionOrVars_function hopen).mp hd
          have hsound := sound_function hmid.tail.tail hvalid (hmid.name ht') hps hbody
          exact hsome ⟨hsound.valid,
            hpasses.trans ((hsound.passes.symbol hopen (by simp)).name ht')⟩
      · obtain ⟨decl, hdecl, rfl⟩ := (reads_functionOrVars_vars hopen).mp hd
        have hsound := (sound_varDecl hmid.tail hvalid (hmid.name ht') hdecl).decl
        exact hsome ⟨hsound.valid, hpasses.trans (hsound.passes.name ht')⟩

/-- What is read as all declarations up to the end. -/
theorem sound_declarations {ts : List Token} {ds : List (DeclTree Unit Unit)} (hts : Genuine ts)
    (h : declarations ts = .ok ds) :
    (∀ d ∈ ds, DeclTree.Valid (Expr.Valid Literal.IsGenuine) d) ∧
      Passes ts [] 0 (ds.map DeclTree.members).sum := by
  match ts, hts with
  | [], _ =>
    rw [declarations_nil] at h
    cases h
    exact ⟨fun _ hd => (nomatch hd), .refl [] 0⟩
  | t :: after, hts =>
    obtain ⟨d, mid, more, htop, hmore, rfl⟩ := (declarations_eq_ok (List.cons_ne_nil t after)).mp h
    have hlt := (reads_topLevel.mpr htop).lt
    obtain ⟨hvalid, hpasses⟩ := sound_top hts htop
    obtain ⟨hvalid', hpasses'⟩ := sound_declarations (hts.of_suffix hpasses.suffix) hmore
    refine ⟨fun d' hd' => ?_, ?_⟩
    · exact (List.mem_append.mp hd').elim (fun hd' => hvalid d' (Option.mem_toList.mp hd')) (hvalid' d')
    · rw [List.map_append, List.sum_append]
      exact hpasses.trans (hpasses'.add _)
termination_by ts.length
decreasing_by
  all_goals simp only [List.length_cons] at *
  all_goals omega

/-! ## Programs -/

theorem ofDirective?_lt {text : String} {v : Version} (h : Version.ofDirective? text = some v) :
    v.Valid := by
  have hnatural : ∀ {word : String} {es : Bool},
      (Version.ofDirective?.natural word).map (⟨·, es⟩) = some v → v.Valid := by
    intro word es hv
    obtain ⟨n, hn, rfl⟩ := Option.map_eq_some_iff.mp hv
    exact natural?_lt hn
  unfold Version.ofDirective? at h
  split at h
  · split at h
    · split at h
      · exact hnatural h
      · split at h
        · exact hnatural h
        · split at h
          · exact hnatural h
          · cases h
      · cases h
    · cases h
  · cases h

/-- What is read as a program is valid; no token of it is malformed, and each point makes a member. -/
theorem sound_program {p : Program} (hts : Genuine ts) (h : program ts = .ok p) :
    p.Valid (Expr.Valid Literal.IsGenuine) ∧ WellFormed ts ∧ points ts = p.members := by
  have hdecls : ∀ {ts : List Token} {ds : List (DeclTree Unit Unit)} {version : Option Version},
      Genuine ts → (∀ v ∈ version, v.Valid) → declarations ts = .ok ds →
        Program.Valid (Expr.Valid Literal.IsGenuine) ⟨version, ds⟩ ∧ WellFormed ts ∧
          points ts = Program.members ⟨version, ds⟩ := by
    intro ts ds version hts hversion hread
    obtain ⟨hvalid, hpasses⟩ := sound_declarations hts hread
    exact ⟨⟨hversion, hvalid⟩, hpasses.wellFormed fun _ ht => (nomatch ht),
      hpasses.count.trans (Nat.zero_add _)⟩
  cases ts with
  | nil =>
      cases h
      exact hdecls hts (fun _ hv => nomatch hv) declarations_nil
  | cons t after =>
      rw [program] at h
      split at h
      next hversion =>
        split at h
        next version hread =>
          rw [isVersionDirective, Bool.and_eq_true, beq_iff_eq] at hversion
          cases hds : declarations after with
          | error failure =>
              rw [hds] at h
              cases h
          | ok ds =>
              rw [hds] at h
              cases h
              have hvalid : ∀ v ∈ some version, v.Valid := by
                rintro v hv
                cases hv
                exact ofDirective?_lt hread
              obtain ⟨hp, hformed, hpoints⟩ := hdecls hts.tail hvalid hds
              refine ⟨hp, List.forall_mem_cons.mpr ⟨by rw [hversion.1]; rfl, hformed⟩, ?_⟩
              rw [points_cons, if_neg (by rw [hversion.1]; simp)]
              exact hpoints
        next => cases h
      next hversion =>
        cases hds : declarations (t :: after) with
        | error failure =>
            rw [hds] at h
            cases h
        | ok ds =>
            rw [hds] at h
            cases h
            exact hdecls hts (fun _ hv => nomatch hv) hds

theorem genuine_ofText (source : String) : Genuine (TokenStream.ofText source).tokens :=
  Lexer.isToken_of_mem _ _

end Parser

/-- A program that a source stands for is valid. -/
theorem Program.valid_of_parse {source : String} {p : Program} (h : parse source = .ok p) :
    p.Valid (Expr.Valid Literal.IsGenuine) ∧
      Parser.WellFormed (TokenStream.ofText source).tokens ∧
        Parser.points (TokenStream.ofText source).tokens = p.members := by
  rw [parse] at h
  cases hread : Parser.program (TokenStream.ofText source).tokens with
  | error failure =>
      rw [hread] at h
      cases h
  | ok p' =>
      rw [hread] at h
      cases h
      exact Parser.sound_program (Parser.genuine_ofText source) hread

end ShaderReducer
