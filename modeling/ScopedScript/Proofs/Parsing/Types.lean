import ScopedScript.Proofs.Parsing.Endings

/-! # Canonical annotations

Which type trees the productions for annotations make.

* **Levels.** A union is loosest, then come intersections; everything else fits any position
  (`Ty.level`).  A function type goes on as far as it can, so nothing that could continue its result
  may follow it before a bracket closes or a comma comes (`Ty.Open`).
* **Canonical trees.** In a canonical tree every part fits its position (`Ty.Canonical`), and a
  parameter has the token of its name and the last token of its annotation.

Every type that is read is canonical (`Grammar.typesRead`).  A production that has read a type stands
behind all of it: what comes next does not continue the type at its level (`Grammar.TypeRead`). -/

namespace ScopedScript

/-- The loosest position that a type fits. -/
def Ty.level : Ty → Nat
  | .union _ => 0
  | .intersection _ => 1
  | _ => 2

mutual

/-- The type ends with the result of a function type. -/
def Ty.Open : Ty → Prop
  | .function _ _ => True
  | .union members | .intersection members => lastOpen members
  | _ => False

/-- The last of the types ends with the result of a function type. -/
def lastOpen : List Ty → Prop
  | [] => False
  | [t] => t.Open
  | _ :: ts => lastOpen ts

end

mutual

/-- The type can be written with `last` as its last token. -/
def Ty.EndsWith (last : Token) : Ty → Prop
  | .named name kind => last.lexeme = name ∧ last.kind = kind
  | .function _ result => result.EndsWith last
  | .union members | .intersection members => lastEndsWith last members
  | .array _ | .tuple _ => last.kind = .rightBracket
  | .object entries => last.kind = .rightBrace ∨ entries = [] ∧ last.kind = .emptyObject
  | .generic _ _ => last.kind = .greater

/-- The last of the types can be written with `last` as its last token. -/
def lastEndsWith (last : Token) : List Ty → Prop
  | [] => False
  | [t] => t.EndsWith last
  | _ :: ts => lastEndsWith last ts

end

mutual

/-- Every part of the type fits its position. -/
def Ty.Canonical : Ty → Prop
  | .named _ kind => kind ∈ Grammar.namedTypeKinds ∨ kind = .name
  | .function params result => params.length ≤ 255 ∧ paramsCanonical params ∧ result.Canonical
  | .union members => 2 ≤ members.length ∧ membersCanonical 1 members
  | .intersection members => 2 ≤ members.length ∧ membersCanonical 2 members
  | .array element => element.level = 2 ∧ ¬element.Open ∧ element.Canonical
  | .tuple elements => tysCanonical elements
  | .object entries => tyEntriesCanonical entries
  | .generic _ args => args ≠ [] ∧ tysCanonical args

/-- Rows of members that fit a level.  Only the last one may go on as far as it can. -/
def membersCanonical (level : Nat) : List Ty → Prop
  | [] => True
  | t :: ts => level ≤ t.level ∧ (ts ≠ [] → ¬t.Open) ∧ t.Canonical ∧ membersCanonical level ts

/-- Rows of canonical types. -/
def tysCanonical : List Ty → Prop
  | [] => True
  | t :: ts => t.Canonical ∧ tysCanonical ts

/-- Rows of properties with canonical types. -/
def tyEntriesCanonical : List TyEntry → Prop
  | [] => True
  | .mk _ ty :: es => ty.Canonical ∧ tyEntriesCanonical es

/-- The parameter has the name of its first token, and an annotation together with its last token. -/
def Parameter.Canonical : Parameter → Prop
  | .mk name none left right => left.kind = .name ∧ left.lexeme = name ∧ right = none
  | .mk name (some ty) left right =>
    left.kind = .name ∧ left.lexeme = name ∧ ty.Canonical ∧
      ∃ last, right = some last ∧ ty.EndsWith last

/-- Rows of canonical parameters. -/
def paramsCanonical : List Parameter → Prop
  | [] => True
  | p :: ps => p.Canonical ∧ paramsCanonical ps

end

/-! ### Rows -/

theorem lastOpen_cons {t : Ty} {ts : List Ty} (h : ts ≠ []) :
    lastOpen (t :: ts) ↔ lastOpen ts := by
  obtain ⟨u, us, rfl⟩ := List.exists_cons_of_ne_nil h
  exact Iff.rfl

theorem lastEndsWith_cons {last : Token} {t : Ty} {ts : List Ty} (h : ts ≠ []) :
    lastEndsWith last (t :: ts) ↔ lastEndsWith last ts := by
  obtain ⟨u, us, rfl⟩ := List.exists_cons_of_ne_nil h
  exact Iff.rfl

namespace Grammar

/-! ### What has been read -/

/-- Do the brackets `[]` come next? -/
def Cursor.atArray (c : Cursor) : Bool := c.check .leftBracket && c.checkNext .rightBracket

/-- What comes next does not go on with a type that has been read at a level: nothing goes on with an
open type. -/
structure Stops (level : Nat) (isOpen : Prop) (c : Cursor) : Prop where
  array : level ≤ 2 ∨ isOpen → c.atArray = false
  ampersand : level ≤ 1 ∨ isOpen → c.check .ampersand = false
  pipe : level = 0 ∨ isOpen → c.check .pipe = false

theorem Stops.all {c : Cursor} {isOpen : Prop} (h : Stops 0 isOpen c) (level : Nat) :
    Stops level True c :=
  ⟨fun _ => h.array (.inl (by omega)), fun _ => h.ampersand (.inl (by omega)),
    fun _ => h.pipe (.inl rfl)⟩

/-- The type has been read at a level, up to the cursor.  Levels are those of unions, intersections,
arrays and primary types. -/
structure TypeRead (level : Nat) (t : Ty) (c : Cursor) : Prop where
  canonical : t.Canonical
  fits : min level 2 ≤ t.level
  ends : t.EndsWith c.last
  stops : Stops level t.Open c

/-- The members of a union or an intersection have been read up to the cursor, the first apart. -/
structure MembersRead (level : Nat) (ts : List Ty) (c : Cursor) : Prop where
  canonical : membersCanonical level ts
  ends : lastEndsWith c.last ts
  stops : Stops level (lastOpen ts) c

/-- What a production for the members after the first comes to: it has read some after the joint, or
no joint comes next. -/
def MembersOrNone (joint : Token.Kind) (level : Nat) (c : Cursor) (ts : List Ty) (c₁ : Cursor) :
    Prop :=
  ts = [] ∧ c₁ = c ∧ c.check joint = false ∨
    ts ≠ [] ∧ c.check joint = true ∧ c₁.check joint = false ∧ MembersRead level ts c₁

/-- Members that fit a level, with a joint between them, make a type. -/
inductive Joins : Nat → Token.Kind → (List Ty → Ty) → Prop
  | union : Joins 1 .pipe .union
  | intersection : Joins 2 .ampersand .intersection

section

variable {level : Nat} {joint : Token.Kind} {make : List Ty → Ty} {member : Parse Ty}
  {rest : Parse (List Ty)} {c c₁ : Cursor} {t : Ty} {ts : List Ty}

/-- A member and those after it. -/
theorem TypeRead.cons (h : TypeRead level t c) (hj : Joins level joint make)
    (hts : MembersOrNone joint level c ts c₁) :
    MembersRead level (t :: ts) c₁ ∧ c₁.check joint = false := by
  have hfits : level ≤ t.level := by
    have := h.fits
    cases hj <;> omega
  rcases hts with ⟨rfl, rfl, hcheck⟩ | ⟨hne, hcheck, hend, hread⟩
  · exact ⟨⟨⟨hfits, by simp, h.canonical, trivial⟩, h.ends, h.stops⟩, hcheck⟩
  · have hopen : ¬t.Open := by
      intro hopen
      cases hj with
      | union => simp [h.stops.pipe (.inr hopen)] at hcheck
      | intersection => simp [h.stops.ampersand (.inr hopen)] at hcheck
    refine ⟨⟨⟨hfits, fun _ => hopen, h.canonical, hread.canonical⟩, ?_, ?_⟩, hend⟩
    · exact (lastEndsWith_cons hne).2 hread.ends
    · obtain ⟨harray, hampersand, hpipe⟩ := hread.stops
      rw [← lastOpen_cons (t := t) hne] at harray hampersand hpipe
      exact ⟨harray, hampersand, hpipe⟩

/-- The members after the first, one more of them. -/
theorem members_ok (hj : Joins level joint make) (hmember : Leaves member (TypeRead level))
    (hrest : ∀ {c ts c₁}, rest c = .ok (ts, c₁) → MembersOrNone joint level c ts c₁)
    (h : (do if ← accept joint then
               let t ← member
               return t :: (← rest)
             else return []) c = .ok (ts, c₁)) : MembersOrNone joint level c ts c₁ := by
  obtain ⟨b, c₂, ha, hb⟩ := bind_eq_ok h
  rcases accept_ok ha with ⟨rfl, hcheck, -⟩ | ⟨rfl, hcheck, rfl⟩
  · obtain ⟨t, c₃, hm, ht⟩ := bind_eq_ok hb
    obtain ⟨us, c₄, hr, hus⟩ := bind_eq_ok ht
    obtain ⟨rfl, rfl⟩ := Prod.mk.inj (Except.ok.inj hus)
    obtain ⟨hread, hend⟩ := (hmember hm).cons hj (hrest hr)
    exact .inr ⟨by simp, hcheck, hend, hread⟩
  · obtain ⟨rfl, rfl⟩ := Prod.mk.inj (Except.ok.inj hb)
    exact .inl ⟨rfl, rfl, hcheck⟩

/-- Where no joint comes next, the members have been read to their end. -/
theorem Stops.looser {isOpen : Prop} (hj : Joins level joint make) (h : Stops level isOpen c)
    (hcheck : c.check joint = false) : Stops (level - 1) isOpen c := by
  obtain ⟨harray, hampersand, hpipe⟩ := h
  cases hj with
  | union =>
    exact ⟨fun _ => harray (.inl (by decide)), fun _ => hampersand (.inl (by decide)), fun _ => hcheck⟩
  | intersection =>
    refine ⟨fun _ => harray (.inl (by decide)), fun _ => hcheck, fun hor => hpipe (.inr ?_)⟩
    exact hor.resolve_left (by decide)

/-- The type that members make, a single one by itself. -/
theorem TypeRead.ofMembers (hj : Joins level joint make) (h : TypeRead level t c)
    (hts : MembersOrNone joint level c ts c₁) :
    TypeRead (level - 1) (if ts.isEmpty then t else make (t :: ts)) c₁ := by
  obtain ⟨hread, hend⟩ := h.cons hj hts
  rcases hts with ⟨rfl, rfl, -⟩ | ⟨hne, -, -, -⟩
  · have hfits := h.fits
    refine ⟨h.canonical, ?_, h.ends, h.stops.looser hj hend⟩
    rw [List.isEmpty_nil, if_pos rfl]
    omega
  · have hlength : 2 ≤ (t :: ts).length := by
      have := List.length_pos_iff.2 hne
      rw [List.length_cons]
      omega
    rw [List.isEmpty_eq_false_iff.2 hne, if_neg (by simp)]
    have hstops := hread.stops.looser hj hend
    cases hj with
    | union => exact ⟨⟨hlength, hread.canonical⟩, Nat.zero_le _, hread.ends, hstops⟩
    | intersection => exact ⟨⟨hlength, hread.canonical⟩, Nat.le_refl _, hread.ends, hstops⟩

end

/-! ### The productions -/

/-- The productions for annotations make canonical trees with a bound of `fuel`. -/
structure TypesRead (fuel : Nat) : Prop where
  annotated : Leaves (annotated fuel) fun ty c => ∀ t ∈ ty, t.Canonical ∧ t.EndsWith c.last
  unionType : Leaves (unionType fuel) (TypeRead 0)
  unionRest : ∀ {c ts c₁}, unionRest fuel c = .ok (ts, c₁) → MembersOrNone .pipe 1 c ts c₁
  intersectionType : Leaves (intersectionType fuel) (TypeRead 1)
  intersectionRest : ∀ {c ts c₁}, intersectionRest fuel c = .ok (ts, c₁) →
    MembersOrNone .ampersand 2 c ts c₁
  arrayType : Leaves (arrayType fuel) (TypeRead 2)
  primaryType : Leaves (primaryType fuel) (TypeRead 3)
  typeArguments : Leaves (typeArguments fuel) fun ts _ => ts ≠ [] ∧ tysCanonical ts
  tupleElements : Leaves (tupleElements fuel) fun ts _ => tysCanonical ts
  typeEntries : Leaves (typeEntries fuel) fun es _ => tyEntriesCanonical es
  parameters : Leaves (parameters fuel) fun ps _ => ps.length ≤ 255 ∧ paramsCanonical ps
  parameterRow : ∀ count, Leaves (parameterRow fuel count) fun ps _ =>
    count + ps.length ≤ 255 ∧ paramsCanonical ps

section

variable {fuel : Nat} {c c₁ : Cursor}

theorem Ty.level_le (t : Ty) : t.level ≤ 2 := by
  cases t <;> simp [Ty.level]

/-- Two brackets that come next, taken. -/
theorem array_taken (h : c.atArray = true) :
    ∃ opening closing rest, c.rest = opening :: closing :: rest ∧
      opening.kind = .leftBracket ∧ closing.kind = .rightBracket := by
  obtain ⟨last, rest, nextId⟩ := c
  obtain ⟨hopen, hclose⟩ := Bool.and_eq_true_iff.1 h
  match rest with
  | [] | [_] => cases hclose
  | opening :: closing :: rest =>
    exact ⟨opening, closing, rest, rfl, kind_of_check hopen, beq_iff_eq.1 hclose⟩

/-- A type that is no function type may be followed by anything. -/
theorem TypeRead.primary {t : Ty} (hcanonical : t.Canonical) (hlevel : t.level = 2)
    (hends : t.EndsWith c.last) (hopen : ¬t.Open) : TypeRead 3 t c :=
  ⟨hcanonical, hlevel.ge, hends, by simp [hopen], by simp [hopen], by simp [hopen]⟩

/-- The brackets `[]` after a type. -/
theorem arrayRest_ok {t t' : Ty} (ht : TypeRead 3 t c) (h : arrayRest fuel t c = .ok (t', c₁)) :
    TypeRead 2 t' c₁ := by
  induction fuel generalizing t c with
  | zero => cases h
  | succ fuel ih =>
    change (if c.atArray then _ else pure t : Parse Ty) c = _ at h
    split at h
    · next harray =>
      obtain ⟨opening, closing, rest, hrest, hopening, hclosing⟩ := array_taken harray
      obtain ⟨last, row, nextId⟩ := c
      obtain rfl : row = opening :: closing :: rest := hrest
      have htake (b : Token) (k : Token → Parse Ty) (d : Token) (ts : List Token)
          (hb : b.kind ≠ .endMark) : (advance >>= k) ⟨d, b :: ts, nextId⟩ = k b ⟨b, ts, nextId⟩ :=
        Reads.bind_ok (Reads.advance_cons hb)
      rw [htake _ _ _ _ (by rw [hopening]; decide), htake _ _ _ _ (by rw [hclosing]; decide)] at h
      refine ih ?_ h
      have hopen : ¬t.Open := by
        intro hopen
        rw [ht.stops.array (.inr hopen)] at harray
        cases harray
      have hlevel : t.level = 2 := Nat.le_antisymm (Ty.level_le t) ht.fits
      exact .primary ⟨hlevel, hopen, ht.canonical⟩ rfl hclosing id
    · next harray =>
      obtain ⟨rfl, rfl⟩ := Prod.mk.inj (Except.ok.inj h)
      refine ⟨ht.canonical, ht.fits, ht.ends, fun _ => Bool.eq_false_iff.2 harray, ?_, ?_⟩
      · exact fun hor => ht.stops.ampersand (.inr (hor.resolve_left (by decide)))
      · exact fun hor => ht.stops.pipe (.inr (hor.resolve_left (by decide)))

theorem primaryType_read (h : TypesRead fuel) : Leaves (primaryType (fuel + 1)) (TypeRead 3) := by
  intro c t c₁ ht
  simp only [primaryType] at ht
  obtain ⟨o, c₂, ho, hnamed⟩ := bind_eq_ok ht
  rcases acceptAny_ok ho with ⟨named, rfl, hkind, hlast⟩ | ⟨rfl, rfl⟩
  · obtain ⟨rfl, rfl⟩ := Prod.mk.inj (Except.ok.inj hnamed)
    exact .primary (.inl hkind) rfl (hlast ▸ ⟨rfl, rfl⟩) id
  dsimp only at hnamed
  obtain ⟨o, c₃, ho', hname⟩ := bind_eq_ok hnamed
  rcases acceptAny_ok ho' with ⟨name, rfl, hkind, hlast⟩ | ⟨rfl, rfl⟩
  · dsimp only at hname
    obtain ⟨b, c₄, ha, hgeneric⟩ := bind_eq_ok hname
    rcases accept_ok ha with ⟨rfl, -, -⟩ | ⟨rfl, -, rfl⟩
    · obtain ⟨args, c₅, hargs, hgeneric⟩ := bind_eq_ok hgeneric
      obtain ⟨close, c₆, hclose, hgeneric⟩ := bind_eq_ok hgeneric
      obtain ⟨rfl, rfl⟩ := Prod.mk.inj (Except.ok.inj hgeneric)
      exact .primary (h.typeArguments hargs) rfl (expect_leaves _ _ hclose).2 id
    · obtain ⟨rfl, rfl⟩ := Prod.mk.inj (Except.ok.inj hgeneric)
      have hends : (Ty.named name.lexeme .name).EndsWith c₄.last := by
        rw [hlast]
        exact ⟨rfl, List.mem_singleton.1 hkind⟩
      exact .primary (.inr rfl) rfl hends id
  dsimp only at hname
  obtain ⟨b, c₄, hparen, hfunction⟩ := bind_eq_ok hname
  rcases accept_ok hparen with ⟨rfl, -, -⟩ | ⟨rfl, -, rfl⟩
  · obtain ⟨params, c₅, hparams, hfunction⟩ := bind_eq_ok hfunction
    obtain ⟨arrow, c₆, -, hfunction⟩ := bind_eq_ok hfunction
    obtain ⟨result, c₇, hresult, hfunction⟩ := bind_eq_ok hfunction
    obtain ⟨rfl, rfl⟩ := Prod.mk.inj (Except.ok.inj hfunction)
    obtain ⟨hlength, hcanonical⟩ := h.parameters hparams
    have hread := h.unionType hresult
    refine ⟨⟨hlength, hcanonical, hread.canonical⟩, Nat.le_refl _, hread.ends, ?_⟩
    exact hread.stops.all 3
  obtain ⟨b, c₅, hbracket, htuple⟩ := bind_eq_ok hfunction
  rcases accept_ok hbracket with ⟨rfl, -, -⟩ | ⟨rfl, -, rfl⟩
  · obtain ⟨elements, c₆, helements, htuple⟩ := bind_eq_ok htuple
    obtain ⟨close, c₇, hclose, htuple⟩ := bind_eq_ok htuple
    obtain ⟨rfl, rfl⟩ := Prod.mk.inj (Except.ok.inj htuple)
    exact .primary (h.tupleElements helements) rfl (expect_leaves _ _ hclose).2 id
  obtain ⟨b, c₆, hempty, hobject⟩ := bind_eq_ok htuple
  rcases accept_ok hempty with ⟨rfl, -, hlast⟩ | ⟨rfl, -, rfl⟩
  · obtain ⟨rfl, rfl⟩ := Prod.mk.inj (Except.ok.inj hobject)
    exact .primary trivial rfl (.inr ⟨rfl, hlast⟩) id
  obtain ⟨b, c₇, hbrace, hentries⟩ := bind_eq_ok hobject
  rcases accept_ok hbrace with ⟨rfl, -, -⟩ | ⟨rfl, -, rfl⟩
  · obtain ⟨_, c₈, -, hentries⟩ := bind_eq_ok hentries
    obtain ⟨entries, c₉, hes, hentries⟩ := bind_eq_ok hentries
    obtain ⟨close, c₁₀, hclose, hentries⟩ := bind_eq_ok hentries
    obtain ⟨rfl, rfl⟩ := Prod.mk.inj (Except.ok.inj hentries)
    exact .primary (h.typeEntries hes) rfl (.inl (expect_leaves _ _ hclose).2) id
  · cases hentries

theorem parameterRow_read (h : TypesRead fuel) (count : Nat) :
    Leaves (parameterRow (fuel + 1) count) fun ps _ =>
      count + ps.length ≤ 255 ∧ paramsCanonical ps := by
  intro c ps c₁ hps
  simp only [parameterRow] at hps
  obtain ⟨_, c₂, -, hps⟩ := bind_eq_ok hps
  split at hps
  · obtain ⟨t, c₃, -, hps⟩ := bind_eq_ok hps
    cases hps
  · next hcount =>
    have hroom : count + 1 ≤ 255 := by
      have : ¬255 ≤ count := hcount
      omega
    obtain ⟨left, c₃, hleft, hps⟩ := bind_eq_ok hps
    obtain ⟨ty, c₄, hty, hps⟩ := bind_eq_ok hps
    obtain ⟨d, c₅, hget, hps⟩ := bind_eq_ok hps
    obtain ⟨rfl, rfl⟩ := Prod.mk.inj (Except.ok.inj hget)
    obtain ⟨_, c₆, -, hps⟩ := bind_eq_ok hps
    obtain ⟨more, c₇, -, hps⟩ := bind_eq_ok hps
    have hcanonical : (Parameter.mk left.lexeme ty left (ty.map fun _ => c₄.last)).Canonical := by
      cases ty with
      | none => exact ⟨(expect_leaves _ _ hleft).1, rfl, rfl⟩
      | some t =>
        obtain ⟨hcanonical, hends⟩ := h.annotated hty t rfl
        exact ⟨(expect_leaves _ _ hleft).1, rfl, hcanonical, c₄.last, rfl, hends⟩
    split at hps
    · obtain ⟨rest, c₈, hrest, hps⟩ := bind_eq_ok hps
      obtain ⟨rfl, rfl⟩ := Prod.mk.inj (Except.ok.inj hps)
      obtain ⟨hlength, hrow⟩ := h.parameterRow _ hrest
      refine ⟨?_, hcanonical, hrow⟩
      rw [List.length_cons]
      omega
    · obtain ⟨rfl, rfl⟩ := Prod.mk.inj (Except.ok.inj hps)
      exact ⟨hroom, hcanonical, trivial⟩

theorem typesRead_succ (h : TypesRead fuel) : TypesRead (fuel + 1) where
  annotated := by
    intro c ty c₁ hty
    simp only [annotated] at hty
    obtain ⟨b, c₂, -, hty⟩ := bind_eq_ok hty
    split at hty
    · obtain ⟨t, c₃, ht, hty⟩ := bind_eq_ok hty
      obtain ⟨rfl, rfl⟩ := Prod.mk.inj (Except.ok.inj hty)
      rintro _ ⟨⟩
      exact ⟨(h.unionType ht).canonical, (h.unionType ht).ends⟩
    · obtain ⟨rfl, rfl⟩ := Prod.mk.inj (Except.ok.inj hty)
      intro t ht
      cases ht
  unionType := by
    intro c t c₁ ht
    simp only [unionType] at ht
    obtain ⟨first, c₂, hfirst, ht⟩ := bind_eq_ok ht
    obtain ⟨more, c₃, hmore, ht⟩ := bind_eq_ok ht
    obtain ⟨rfl, rfl⟩ := Prod.mk.inj (Except.ok.inj ht)
    exact (h.intersectionType hfirst).ofMembers .union (h.unionRest hmore)
  unionRest hts := members_ok .union h.intersectionType h.unionRest hts
  intersectionType := by
    intro c t c₁ ht
    simp only [intersectionType] at ht
    obtain ⟨first, c₂, hfirst, ht⟩ := bind_eq_ok ht
    obtain ⟨more, c₃, hmore, ht⟩ := bind_eq_ok ht
    obtain ⟨rfl, rfl⟩ := Prod.mk.inj (Except.ok.inj ht)
    exact (h.arrayType hfirst).ofMembers .intersection (h.intersectionRest hmore)
  intersectionRest hts := members_ok .intersection h.arrayType h.intersectionRest hts
  arrayType := by
    intro c t c₁ ht
    simp only [arrayType] at ht
    obtain ⟨element, c₂, helement, ht⟩ := bind_eq_ok ht
    exact arrayRest_ok (h.primaryType helement) ht
  primaryType := primaryType_read h
  typeArguments := by
    intro c ts c₁ hts
    simp only [typeArguments] at hts
    obtain ⟨first, c₂, hfirst, hts⟩ := bind_eq_ok hts
    obtain ⟨b, c₃, -, hts⟩ := bind_eq_ok hts
    split at hts
    · obtain ⟨rest, c₄, hrest, hts⟩ := bind_eq_ok hts
      obtain ⟨rfl, rfl⟩ := Prod.mk.inj (Except.ok.inj hts)
      exact ⟨by simp, (h.unionType hfirst).canonical, (h.typeArguments hrest).2⟩
    · obtain ⟨rfl, rfl⟩ := Prod.mk.inj (Except.ok.inj hts)
      exact ⟨by simp, (h.unionType hfirst).canonical, trivial⟩
  tupleElements := by
    intro c ts c₁ hts
    simp only [tupleElements] at hts
    obtain ⟨d, c₂, -, hts⟩ := bind_eq_ok hts
    split at hts
    · obtain ⟨rfl, rfl⟩ := Prod.mk.inj (Except.ok.inj hts)
      trivial
    · obtain ⟨first, c₃, hfirst, hts⟩ := bind_eq_ok hts
      obtain ⟨b, c₄, -, hts⟩ := bind_eq_ok hts
      split at hts
      · obtain ⟨rest, c₅, hrest, hts⟩ := bind_eq_ok hts
        obtain ⟨rfl, rfl⟩ := Prod.mk.inj (Except.ok.inj hts)
        exact ⟨(h.unionType hfirst).canonical, h.tupleElements hrest⟩
      · obtain ⟨rfl, rfl⟩ := Prod.mk.inj (Except.ok.inj hts)
        exact ⟨(h.unionType hfirst).canonical, trivial⟩
  typeEntries := by
    intro c es c₁ hes
    simp only [typeEntries] at hes
    obtain ⟨d, c₂, -, hes⟩ := bind_eq_ok hes
    split at hes
    · obtain ⟨rfl, rfl⟩ := Prod.mk.inj (Except.ok.inj hes)
      trivial
    · obtain ⟨name, c₃, -, hes⟩ := bind_eq_ok hes
      obtain ⟨_, c₄, -, hes⟩ := bind_eq_ok hes
      obtain ⟨ty, c₅, hty, hes⟩ := bind_eq_ok hes
      obtain ⟨_, c₆, -, hes⟩ := bind_eq_ok hes
      obtain ⟨_, c₇, -, hes⟩ := bind_eq_ok hes
      obtain ⟨rest, c₈, hrest, hes⟩ := bind_eq_ok hes
      obtain ⟨rfl, rfl⟩ := Prod.mk.inj (Except.ok.inj hes)
      exact ⟨(h.unionType hty).canonical, h.typeEntries hrest⟩
  parameters := by
    intro c ps c₁ hps
    simp only [parameters] at hps
    obtain ⟨_, c₂, -, hps⟩ := bind_eq_ok hps
    obtain ⟨d, c₃, -, hps⟩ := bind_eq_ok hps
    split at hps
    · obtain ⟨params, c₄, hparams, hps⟩ := bind_eq_ok hps
      obtain ⟨_, c₅, -, hps⟩ := bind_eq_ok hps
      obtain ⟨rfl, rfl⟩ := Prod.mk.inj (Except.ok.inj hps)
      obtain ⟨rfl, rfl⟩ := Prod.mk.inj (Except.ok.inj hparams)
      exact ⟨Nat.zero_le _, trivial⟩
    · obtain ⟨params, c₄, hparams, hps⟩ := bind_eq_ok hps
      obtain ⟨_, c₅, -, hps⟩ := bind_eq_ok hps
      obtain ⟨rfl, rfl⟩ := Prod.mk.inj (Except.ok.inj hps)
      obtain ⟨hlength, hcanonical⟩ := h.parameterRow 0 hparams
      exact ⟨by omega, hcanonical⟩
  parameterRow := parameterRow_read h

theorem typesRead (fuel : Nat) : TypesRead fuel := by
  induction fuel with
  | zero => constructor <;> intros <;> first | exact Leaves.throw | contradiction
  | succ fuel ih => exact typesRead_succ ih

end

end Grammar

end ScopedScript
