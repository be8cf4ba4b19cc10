import GrammarAtlas.Proofs.Rule.Regrouping

/-!
# Well-formed bodies

A body consists of branches with pipes in between, a branch of atoms that may have a suffix, and
an atom is a word or a body in parentheses (`Formed.Body`).  The lexemes of a body can be told one
by one: each has a role in it, the parentheses are nested, and a suffix stands right behind a
word or a closing parenthesis (`body_iff`).  So it can be decided whether lexemes are a body, and
parts of a body are put together again without looking at what they derive from.

What is `regrouped` from nested parts is a body just when none of the parts begins with a suffix
or has one in a wrong place (`body_regrouped_iff`).  The alternatives of a body are such parts; but
what stands behind the call in an alternative begins with a suffix when the call has one
(`body_parts_iff`).
-/

namespace GrammarAtlas

/-- What a lexeme is in a body. -/
inductive Role where
  | word
  | opening
  | closing
  | pipe
  | suffix
  deriving DecidableEq, Repr

namespace Lexeme

/-- The texts of suffixes. -/
def suffixes : List Text := [['*'], ['+'], ['?']]

/-- What the lexeme is in a body, if it may stand in one. -/
def role? (l : Lexeme) : Option Role :=
  if l.text = ['('] then some .opening
  else if l.text = [')'] then some .closing
  else if l.text = ['|'] then some .pipe
  else if l.text ∈ suffixes then some .suffix
  else if l.kind ∈ [TokenKind.id, .char, .string] then some .word
  else none

/-- Whether an atom may end with the lexeme. -/
def endsAtom (l : Lexeme) : Bool := l.role? = some .word ∨ l.role? = some .closing

variable {l : Lexeme} {r : Role}

theorem endsAtom_of_role (h : l.role? = some r) :
    l.endsAtom = decide (r = .word ∨ r = .closing) := by
  rw [endsAtom, h]
  simp only [Option.some.injEq]

theorem role?_eq_suffix_iff : l.role? = some .suffix ↔ l.text ∈ suffixes := by
  unfold role?
  split_ifs with hopen hclose hpipe hsuffix hword
  · simp [hopen, suffixes]
  · simp [hclose, suffixes]
  · simp [hpipe, suffixes]
  · simp [hsuffix]
  · simp [hsuffix]
  · simp [hsuffix]

end Lexeme

namespace Formed

/-! ## Derivations -/

mutual
/-- Branches with pipes in between. -/
inductive Body : List Lexeme → Prop where
  | branch {ls : List Lexeme} (h : Branch ls) : Body ls
  | pipe {l : Lexeme} {ls ms : List Lexeme} (h : Branch ls) (hl : l.role? = some .pipe)
      (hrest : Body ms) : Body (ls ++ l :: ms)

/-- Atoms in a row, each with a suffix or without one. -/
inductive Branch : List Lexeme → Prop where
  | nil : Branch []
  | atom {ls ms : List Lexeme} (h : Atom ls) (hrest : Branch ms) : Branch (ls ++ ms)
  | suffixed {l : Lexeme} {ls ms : List Lexeme} (h : Atom ls) (hl : l.role? = some .suffix)
      (hrest : Branch ms) : Branch (ls ++ l :: ms)

/-- A word, or a body in parentheses. -/
inductive Atom : List Lexeme → Prop where
  | word {l : Lexeme} (hl : l.role? = some .word) : Atom [l]
  | group {l m : Lexeme} {ls : List Lexeme} (hl : l.role? = some .opening) (h : Body ls)
      (hm : m.role? = some .closing) : Atom (l :: (ls ++ [m]))
end

open Branches Lexeme

variable {l m : Lexeme} {ls ms : List Lexeme} {depth depth' : Int} {after : Bool}

theorem Body.append_atom (h : Body ms) (hatom : Atom ls) : Body (ls ++ ms) := by
  cases h with
  | branch h => exact .branch (.atom hatom h)
  | pipe h hl hrest =>
    rw [← List.append_assoc]
    exact .pipe (.atom hatom h) hl hrest

theorem Body.append_suffixed (h : Body ms) (hatom : Atom ls) (hl : l.role? = some .suffix) :
    Body (ls ++ l :: ms) := by
  cases h with
  | branch h => exact .branch (.suffixed hatom hl h)
  | @pipe k ks ms h hk hrest =>
    have hassoc : ls ++ l :: (ks ++ k :: ms) = (ls ++ l :: ks) ++ k :: ms := by simp
    rw [hassoc]
    exact .pipe (.suffixed hatom hl h) hk hrest

/-! ## Lexeme by lexeme -/

/-- Suffixes stand behind what they belong to.  `after` says whether there is such a thing in
front of the lexemes. -/
def Attached (after : Bool) : List Lexeme → Prop
  | [] => True
  | l :: ls => (l.role? = some .suffix → after = true) ∧ Attached l.endsAtom ls

/-- **Lexemes that are in their places.** -/
structure InPlace (ls : List Lexeme) : Prop where
  roles : ∀ l ∈ ls, l.role? ≠ none
  nested : Nested ls
  attached : Attached false ls

instance decidableAttached : ∀ (after : Bool) (ls : List Lexeme), Decidable (Attached after ls)
  | _, [] => .isTrue trivial
  | _, l :: ls =>
    have := decidableAttached l.endsAtom ls
    inferInstanceAs (Decidable (_ ∧ _))

/-- What is in front of lexemes may be more than they need. -/
theorem Attached.mono (h : Attached false ls) (after : Bool) : Attached after ls := by
  cases ls with
  | nil => trivial
  | cons l ls => exact ⟨fun hsuffix => absurd (h.1 hsuffix) Bool.false_ne_true, h.2⟩

theorem Attached.append (h : Attached after ls) (h' : Attached false ms) :
    Attached after (ls ++ ms) := by
  induction ls generalizing after with
  | nil => exact h'.mono after
  | cons l ls ih => exact ⟨h.1, ih h.2⟩

/-- What is no suffix parts what is in front of it from what is behind it. -/
theorem attached_append_cons (hl : l.role? ≠ some .suffix) :
    Attached after (ls ++ l :: ms) ↔ Attached after ls ∧ Attached l.endsAtom ms := by
  induction ls generalizing after with
  | nil => simp [Attached, hl]
  | cons k ls ih => rw [List.cons_append, Attached, Attached, ih, and_assoc]

/-- Behind an atom there is a suffix, or what could stand anywhere. -/
theorem Attached.cases (h : Attached true ls) : Attached false ls ∨
    ∃ l ms, ls = l :: ms ∧ l.role? = some .suffix ∧ Attached false ms := by
  cases ls with
  | nil => exact .inl trivial
  | cons l ls =>
    by_cases hl : l.role? = some .suffix
    · refine .inr ⟨l, ls, rfl, hl, ?_⟩
      have hrest := h.2
      rwa [endsAtom_of_role hl] at hrest
    · exact .inl ⟨fun hsuffix => absurd hsuffix hl, h.2⟩

theorem weight_of_role {r : Role} (h : l.role? = some r) :
    weight l = if r = .opening then 1 else if r = .closing then -1 else 0 := by
  unfold role? at h
  rw [weight]
  split_ifs at h with hopen hclose <;> cases h <;> simp [*]

/-! ## From derivations to places -/

theorem InPlace.append (h : InPlace ls) (h' : InPlace ms) : InPlace (ls ++ ms) where
  roles := List.forall_mem_append.mpr ⟨h.roles, h'.roles⟩
  nested := h.nested.append h'.nested
  attached := h.attached.append h'.attached

theorem InPlace.pipe_cons (h : InPlace ls) (hl : l.role? = some .pipe) : InPlace (l :: ls) where
  roles := List.forall_mem_cons.mpr ⟨by simp [hl], h.roles⟩
  nested := (nested_cons_iff (weight_of_role hl)).mpr h.nested
  attached := ⟨by simp [hl], by rw [endsAtom_of_role hl]; exact h.attached⟩

/-- An atom is in its place, and a suffix may stand behind it. -/
structure Carries (ls : List Lexeme) : Prop where
  roles : ∀ l ∈ ls, l.role? ≠ none
  nested : Nested ls
  attached : ∀ ms, Attached true ms → Attached false (ls ++ ms)

theorem Carries.append (h : Carries ls) (h' : InPlace ms) : InPlace (ls ++ ms) where
  roles := List.forall_mem_append.mpr ⟨h.roles, h'.roles⟩
  nested := h.nested.append h'.nested
  attached := h.attached ms (h'.attached.mono true)

theorem Carries.append_suffix (h : Carries ls) (hl : l.role? = some .suffix) (h' : InPlace ms) :
    InPlace (ls ++ l :: ms) where
  roles := List.forall_mem_append.mpr
    ⟨h.roles, List.forall_mem_cons.mpr ⟨by simp [hl], h'.roles⟩⟩
  nested := h.nested.append ((nested_cons_iff (weight_of_role hl)).mpr h'.nested)
  attached := h.attached _ ⟨fun _ => rfl, h'.attached.mono _⟩

theorem carries_word (hl : l.role? = some .word) : Carries [l] where
  roles := List.forall_mem_singleton.mpr (by simp [hl])
  nested := (nested_cons_iff (weight_of_role hl)).mpr nested_nil
  attached := fun ms hms => ⟨by simp [hl], by rwa [endsAtom_of_role hl]⟩

theorem InPlace.group (h : InPlace ls) (hl : l.role? = some .opening)
    (hm : m.role? = some .closing) : Carries (l :: (ls ++ [m])) where
  roles := by
    refine List.forall_mem_cons.mpr ⟨by simp [hl], List.forall_mem_append.mpr ⟨h.roles, ?_⟩⟩
    exact List.forall_mem_singleton.mpr (by simp [hm])
  nested := h.nested.group (weight_of_role hl) (weight_of_role hm)
  attached := by
    intro ms hms
    rw [List.cons_append, List.append_assoc, Attached, endsAtom_of_role hl]
    refine ⟨by simp [hl], h.attached.append ⟨by simp [hm], ?_⟩⟩
    rwa [endsAtom_of_role hm]

mutual
theorem Body.inPlace {ls : List Lexeme} : Body ls → InPlace ls
  | .branch h => h.inPlace
  | .pipe h hl hrest => h.inPlace.append (hrest.inPlace.pipe_cons hl)

theorem Branch.inPlace {ls : List Lexeme} : Branch ls → InPlace ls
  | .nil => ⟨List.forall_mem_nil _, nested_nil, trivial⟩
  | .atom h hrest => h.carries.append hrest.inPlace
  | .suffixed h hl hrest => h.carries.append_suffix hl hrest.inPlace

theorem Atom.carries {ls : List Lexeme} : Atom ls → Carries ls
  | .word hl => carries_word hl
  | .group hl h hm => h.inPlace.group hl hm
end

/-! ## From places to derivations -/

/-- Behind an atom a body goes on, with a suffix or without one. -/
theorem Atom.append (h : Atom ls) (hroles : ∀ l ∈ ms, l.role? ≠ none) (hnested : Nested ms)
    (hattached : Attached true ms)
    (ih : ∀ ks, ks.length ≤ ms.length → InPlace ks → Body ks) : Body (ls ++ ms) := by
  obtain hrest | ⟨l, rest, rfl, hl, hrest⟩ := hattached.cases
  · exact (ih ms (Nat.le_refl _) ⟨hroles, hnested, hrest⟩).append_atom h
  · have hnested' := (nested_cons_iff (weight_of_role hl)).mp hnested
    refine (ih rest ?_ ⟨(List.forall_mem_cons.mp hroles).2, hnested', hrest⟩).append_suffixed h hl
    exact Nat.le_succ _

/-- A closing parenthesis is one by its role. -/
theorem role?_of_weight (hl : weight l = -1) (hrole : l.role? ≠ none) :
    l.role? = some .closing := by
  obtain ⟨role, hrole⟩ := Option.ne_none_iff_exists'.mp hrole
  rw [weight_of_role hrole] at hl
  cases role
  case closing => exact hrole
  all_goals exact absurd hl (by decide)

/-- Behind an opening parenthesis there are lexemes in their places, a closing parenthesis, and
lexemes that may stand behind an atom. -/
theorem InPlace.exists_group (h : InPlace (l :: ls)) (hl : l.role? = some .opening) :
    ∃ inner m rest, ls = inner ++ m :: rest ∧ m.role? = some .closing ∧ InPlace inner ∧
      (∀ l ∈ rest, l.role? ≠ none) ∧ Nested rest ∧ Attached true rest := by
  obtain ⟨hroles, ⟨⟨-, habove⟩, hheight⟩, -, hattached⟩ := h
  have hweight : weight l = 1 := weight_of_role hl
  rw [hweight] at habove
  rw [height_cons, hweight, ← Int.zero_add 1] at hheight
  rw [endsAtom_of_role hl] at hattached
  obtain ⟨inner, m, rest, rfl, hm, hinner, hinner', hrest⟩ :=
    exists_closing habove hheight (Int.le_refl 0)
  rw [Int.zero_add] at hinner'
  obtain ⟨hin, hmrest⟩ := List.forall_mem_append.mp (List.forall_mem_cons.mp hroles).2
  obtain ⟨hrole, hout⟩ := List.forall_mem_cons.mp hmrest
  have hclosing := role?_of_weight hm hrole
  obtain ⟨hfront, hback⟩ := (attached_append_cons (by simp [hclosing])).mp hattached
  rw [endsAtom_of_role hclosing] at hback
  exact ⟨inner, m, rest, rfl, hclosing, ⟨hin, ⟨hinner, hinner'⟩, hfront⟩, hout, hrest, hback⟩

/-- Lexemes in their places are a body if all fewer ones are. -/
theorem InPlace.body_of_shorter (h : InPlace ls)
    (ih : ∀ ks, ks.length < ls.length → InPlace ks → Body ks) : Body ls := by
  cases ls with
  | nil => exact .branch .nil
  | cons l ls =>
    rw [List.length_cons] at ih
    obtain ⟨hrole, hroles⟩ := List.forall_mem_cons.mp h.roles
    obtain ⟨role, hl⟩ := Option.ne_none_iff_exists'.mp hrole
    obtain ⟨hsuffix, hattached⟩ := h.attached
    rw [endsAtom_of_role hl] at hattached
    cases role with
    | word =>
      have hnested := (nested_cons_iff (weight_of_role hl)).mp h.nested
      exact Atom.append (.word hl) hroles hnested hattached fun ks hks =>
        ih ks (Nat.lt_succ_of_le hks)
    | opening =>
      obtain ⟨inner, m, rest, rfl, hm, hinner, hout, hnested, hback⟩ := h.exists_group hl
      rw [List.length_append, List.length_cons] at ih
      have hgroup : Atom (l :: (inner ++ [m])) := .group hl (ih inner (by omega) hinner) hm
      have hbody := hgroup.append hout hnested hback fun ks hks => ih ks (by omega)
      rwa [List.cons_append, List.append_assoc] at hbody
    | closing =>
      have habove := h.nested.above.1
      rw [weight_of_role hl] at habove
      exact absurd habove (by decide)
    | pipe =>
      have hnested := (nested_cons_iff (weight_of_role hl)).mp h.nested
      exact Body.pipe .nil hl (ih ls (Nat.lt_succ_self _) ⟨hroles, hnested, hattached⟩)
    | suffix => exact absurd (hsuffix hl) Bool.false_ne_true

theorem InPlace.body (h : InPlace ls) : Body ls := by
  induction hlength : ls.length using Nat.strong_induction_on generalizing ls with
  | _ n ih =>
    subst hlength
    exact h.body_of_shorter fun ks hks hplace => ih ks.length hks hplace rfl

/-- **Lexemes are a body just when each is in its place.** -/
theorem body_iff : Body ls ↔ InPlace ls := ⟨Body.inPlace, InPlace.body⟩

instance (ls : List Lexeme) : Decidable (Body ls) :=
  decidable_of_iff ((∀ l ∈ ls, l.role? ≠ none) ∧ Nested ls ∧ Attached false ls)
    ⟨fun ⟨hroles, hnested, hattached⟩ => InPlace.body ⟨hroles, hnested, hattached⟩,
      fun h => ⟨h.inPlace.roles, h.inPlace.nested, h.inPlace.attached⟩⟩

/-! ## Parts of a body -/

variable {branch ks : List IndexedLexeme} {lss hs ts : List (List Lexeme)}

/-- In each branch of a body, suffixes stand behind what they belong to. -/
theorem attached_of_mem_split (h : Attached false ((branch ++ ks).map (·.2))) :
    ∀ b ∈ split depth branch ks, Attached false (b.map (·.2)) := by
  induction ks generalizing depth branch with
  | nil =>
    rw [List.append_nil] at h
    rw [split]
    split
    · exact List.forall_mem_nil _
    · exact List.forall_mem_singleton.mpr h
  | cons k ks ih =>
    by_cases hsep : isMark '|' k ∧ depth = 0
    · obtain ⟨hpipe, rfl⟩ := hsep
      have hk : k.2.role? = some .pipe := by
        rw [role?, isMark_iff.mp hpipe]
        rfl
      rw [List.map_append, List.map_cons, attached_append_cons (by simp [hk]),
        endsAtom_of_role hk] at h
      rw [split_cons_pipe hpipe]
      exact List.forall_mem_cons.mpr ⟨h.1, ih h.2⟩
    · rw [split_cons_of_not hsep]
      rw [List.append_cons] at h
      exact ih h

/-- **Each branch of a body is a body.** -/
theorem InPlace.of_mem_split (h : InPlace (ks.map (·.2))) :
    ∀ b ∈ split 0 [] ks, InPlace (b.map (·.2)) := by
  have hheight : 0 + height (ks.map (·.2)) = 0 := by rw [Int.zero_add, h.nested.height_eq]
  have hnested : ∀ b ∈ split 0 [] ks, Nested (b.map (·.2)) :=
    nested_of_mem_split h.nested.above hheight trivial rfl
  have hattached : ∀ b ∈ split 0 [] ks, Attached false (b.map (·.2)) :=
    attached_of_mem_split h.attached
  intro b hb
  exact ⟨fun l hl => h.roles l (((infix_of_mem_split hb).map _).subset hl), hnested b hb,
    hattached b hb⟩

theorem attached_intercalate (hl : l.role? = some .pipe) :
    Attached false ([l].intercalate lss) ↔ ∀ ls ∈ lss, Attached false ls := by
  induction lss with
  | nil =>
    rw [List.intercalate_nil]
    exact iff_of_true trivial (List.forall_mem_nil _)
  | cons ls lss ih =>
    cases lss with
    | nil => rw [List.intercalate_singleton, List.forall_mem_singleton]
    | cons ms lss =>
      rw [List.intercalate_cons_cons, List.append_assoc, List.singleton_append,
        attached_append_cons (by simp [hl]), endsAtom_of_role hl, List.forall_mem_cons, ← ih]
      rfl

theorem nested_regrouped (hhs : ∀ ls ∈ hs, Nested ls) (hts : ∀ ls ∈ ts, Nested ls) :
    Nested (Rule.regrouped mark hs ts) := by
  have hpipe : weight (mark '|') = 0 := rfl
  have hheads := (nested_intercalate hpipe hhs).group (l := mark '(') (m := mark ')') rfl rfl
  have htails := (nested_intercalate hpipe hts).group (l := mark '(') (m := mark ')') rfl rfl
  have hstar : Nested [mark '*'] := (nested_cons_iff rfl).mpr nested_nil
  have hall := hheads.append (htails.append hstar)
  simpa [Rule.regrouped] using hall

theorem attached_regrouped_iff : Attached false (Rule.regrouped mark hs ts) ↔
    ∀ ls ∈ hs ++ ts, Attached false ls := by
  have hopen (after : Bool) (ls : List Lexeme) :
      Attached after (mark '(' :: ls) ↔ Attached false ls := and_iff_right nofun
  have hpipe : (mark '|').role? = some .pipe := rfl
  have hclose : (mark ')').role? ≠ some .suffix := nofun
  have hstar : Attached true [mark '*'] := ⟨fun _ => rfl, trivial⟩
  have hends : (mark ')').endsAtom = true := rfl
  have hparts : Rule.regrouped mark hs ts = (mark '(' :: [mark '|'].intercalate hs) ++
      mark ')' :: ((mark '(' :: [mark '|'].intercalate ts) ++ mark ')' :: [mark '*']) := by
    simp [Rule.regrouped]
  rw [hparts, attached_append_cons hclose, attached_append_cons hclose, hends, hopen, hopen,
    attached_intercalate hpipe, attached_intercalate hpipe, List.forall_mem_append,
    and_iff_left hstar]

/-- **What is regrouped from nested parts** is a body just when suffixes stand in their places in
each of the parts. -/
theorem body_regrouped_iff (hroles : ∀ ls ∈ hs ++ ts, ∀ l ∈ ls, l.role? ≠ none)
    (hnested : ∀ ls ∈ hs ++ ts, Nested ls) :
    Body (Rule.regrouped mark hs ts) ↔ ∀ ls ∈ hs ++ ts, Attached false ls := by
  rw [body_iff, ← attached_regrouped_iff]
  refine ⟨InPlace.attached, fun hattached => ⟨?_, ?_, hattached⟩⟩
  · intro l hl
    obtain ⟨c, hc, rfl⟩ | ⟨ls, hls, hmem⟩ := Rule.mem_regrouped hl
    · have hmarks : ∀ c ∈ "(|)*".toList, (mark c).role?.isSome = true := List.all_eq_true.mp rfl
      exact Option.isSome_iff_ne_none.mp (hmarks c hc)
    · exact hroles ls hls l hmem
  · obtain ⟨hhs, hts⟩ := List.forall_mem_append.mp hnested
    exact nested_regrouped hhs hts

/-! ## What stands behind a call -/

variable {r : Rule}

/-- Some texts begin with a name that has a suffix. -/
def SuffixedCall (name : Text) (texts : List Text) : Prop :=
  ∃ u ∈ suffixes, [name, u] <+: texts

theorem SuffixedCall.isTail {texts : List Text} (h : SuffixedCall r.name texts) :
    r.IsTail texts := by
  obtain ⟨u, -, rest, rfl⟩ := h
  exact ⟨rfl, by simp⟩

/-- The tail of a branch begins with a suffix just when the call in front of it has one. -/
theorem attached_tail_iff (h : Attached false ls) (htail : r.IsTail (ls.map Lexeme.text)) :
    Attached false ls.tail ↔ ¬ SuffixedCall r.name (ls.map Lexeme.text) := by
  obtain ⟨hname, hlength⟩ := htail
  match ls with
  | l :: m :: ls =>
    have hl : l.text = r.name := Option.some.inj hname
    obtain ⟨-, -, hrest⟩ := h
    have hcall : SuffixedCall r.name ((l :: m :: ls).map Lexeme.text) ↔ m.text ∈ suffixes := by
      simp [SuffixedCall, hl]
    rw [hcall, ← role?_eq_suffix_iff]
    constructor
    · intro hattached hsuffix
      exact Bool.false_ne_true (hattached.1 hsuffix)
    · intro hsuffix
      exact ⟨fun h => absurd h hsuffix, hrest⟩

/-- **Branches of a body make a body again** when they are regrouped, just when none begins with a
call that has a suffix. -/
theorem body_parts_iff (hname : r.name ≠ ['('] ∧ r.name ≠ [')']) (h : ∀ ls ∈ lss, InPlace ls) :
    Body (Rule.regrouped mark (r.headLexemes lss) (r.tailLexemes lss)) ↔
      ∀ ls ∈ lss, ¬ SuffixedCall r.name (ls.map Lexeme.text) := by
  have hheads : ∀ ls ∈ r.headLexemes lss, Attached false ls :=
    fun ls hls => (h ls (List.mem_of_mem_filter hls)).attached
  have hnested : ∀ ls ∈ lss, Nested ls := fun ls hls => (h ls hls).nested
  rw [body_regrouped_iff, List.forall_mem_append, and_iff_right hheads]
  · constructor
    · intro htails ls hls hcall
      have hmem : ls.tail ∈ r.tailLexemes lss :=
        List.mem_map_of_mem (List.mem_filter.mpr ⟨hls, decide_eq_true hcall.isTail⟩)
      exact (attached_tail_iff (h ls hls).attached hcall.isTail).mp (htails _ hmem) hcall
    · intro hcalls ls hls
      obtain ⟨ms, hms, rfl⟩ := List.mem_map.mp hls
      obtain ⟨hmem, htail⟩ := List.mem_filter.mp hms
      exact (attached_tail_iff (h ms hmem).attached (of_decide_eq_true htail)).mpr (hcalls ms hmem)
  · intro ls hls l hl
    obtain ⟨ms, hms, hmem⟩ := Rule.exists_of_mem_parts hls hl
    exact (h ms hms).roles l hmem
  · exact List.forall_mem_append.mpr ⟨Rule.nested_of_mem_headLexemes hnested,
      Rule.nested_of_mem_tailLexemes hnested hname⟩

end Formed
end GrammarAtlas
