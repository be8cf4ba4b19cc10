import GrammarAtlas.Grammar.Scan
import GrammarAtlas.Proofs.Grammar.Bounds
import GrammarAtlas.Proofs.Rule.Alternative

/-!
# What a scan comes to

A look at a token comes to nothing, unless the token is the name of a rule; then
it comes to one rule or to one report (`visit_yields`).  Which of the two depends
on the bounds alone: a rule with a colon and a semicolon is never turned down,
since bounds that have been found are in order.

The scan goes on behind what it has found (`Looks`): its looks are at increasing
indices, a rule ends in front of the next look, and a token that is not looked at
belongs to the stretch of the look in front of it (`scanFrom_yields`).
-/

namespace GrammarAtlas

/-- The span delimits a rule of the stream with a name: an identifier, a colon, and
the semicolon that comes next. -/
structure RuleSpan.Delimits (span : RuleSpan) (s : TokenStream) (name : Text) : Prop where
  start_lt_colon : span.start < span.colon
  colon_lt_stop : span.colon < span.stop
  stop_lt_size : span.stop < s.size
  name_at_start : ∃ t, s.get? span.start = some t ∧ t.kind = .id ∧ s.text t = .ok name
  colon_at_colon : s.textAt span.colon = .ok [':']
  semicolon_at_stop : s.textAt span.stop = .ok [';']
  no_semicolon_between : ∀ j, span.colon < j → j < span.stop → s.textAt j ≠ .ok [';']

/-- A rule with a name starts at the index: there is an identifier, and it is no
word that starts a header, settings or an action there, and no modifier. -/
structure TokenStream.StartsRule (s : TokenStream) (i : Nat) (name : Text) : Prop where
  identifier : ∃ t, s.get? i = some t ∧ t.kind = .id ∧ s.text t = .ok name
  no_header : name ∉ Opening.headerWords
  no_grammar : name ∈ Opening.grammarKinds → s.textAt (i + 1) ≠ .ok "grammar".toList
  no_settings : name ∈ Opening.settingsWords → ∀ u, s.get? (i + 1) = some u → u.kind ≠ .block
  no_action : name ∉ Opening.actionWords
  no_modifier : name ∉ Opening.modifiers

namespace Visit

/-- There are the colon and the semicolon of the rule with a name, and the look made
one rule of them and reported nothing. -/
def Declares (v : Visit) (s : TokenStream) (name : Text) : Prop :=
  ∃ colon stop made r,
    s.BoundsFrom (v.index + 1) (some colon, some stop) ∧
    Rule.make name ⟨v.index, colon, stop⟩ s = .ok made ∧ made.completed s = .ok r ∧
    v.rules = [r] ∧ v.reports = []

/-- There is no colon or no semicolon of the rule with a name, and the look made one
report, on what there is of it, and no rule. -/
def Reports (v : Visit) (s : TokenStream) (name : Text) : Prop :=
  ∃ bounds range,
    s.BoundsFrom (v.index + 1) bounds ∧ (bounds.1 = none ∨ bounds.2 = none) ∧
    (s.get? v.index).map (·.span.start) = some range.start ∧
    (s.get? (bounds.2.getD (s.size - 1))).map (·.span.stop) = some range.stop ∧
    v.rules = [] ∧ v.reports = [.report .malformedRule (some range) (some name)]

/-- The look is at a token of the stream, and what came of it is what its opening
calls for. -/
structure Accounted (v : Visit) (s : TokenStream) : Prop where
  opening : ∃ t, s.get? v.index = some t ∧ s.opening v.index t = .ok v.opening
  starts : ∀ name, v.opening = .rule name ↔ s.StartsRule v.index name
  rule : ∀ name, v.opening = .rule name → v.Declares s name ∨ v.Reports s name
  other : (∀ name, v.opening ≠ .rule name) → v.rules = [] ∧ v.reports = []

theorem Accounted.length_rules_le {v : Visit} {s : TokenStream} (h : v.Accounted s) :
    v.rules.length ≤ 1 := by
  by_cases hopening : ∃ name, v.opening = .rule name
  · obtain ⟨name, hname⟩ := hopening
    rcases h.rule name hname with ⟨_, _, _, r, -, -, -, hrules, -⟩ | ⟨_, _, -, -, -, -, hrules, -⟩
    · rw [hrules]
      exact Nat.le_refl 1
    · rw [hrules]
      exact Nat.zero_le 1
  · obtain ⟨hrules, -⟩ := h.other fun name hname => hopening ⟨name, hname⟩
    rw [hrules]
    exact Nat.zero_le 1

end Visit

namespace TokenStream

/-- A look at the index `i` takes in a stretch of tokens; this is where it ends, told
by the index behind it. -/
inductive StretchEnd (s : TokenStream) (i : Nat) : Opening → Nat → Prop
  | header {stop : Nat} : s.FirstText [';'] i stop → StretchEnd s i .header (stop + 1)
  | unendedHeader : s.NoText [';'] i → StretchEnd s i .header s.size
  | settings : StretchEnd s i .settings (i + 2)
  | action {j : Nat} : s.ActionEnd (i + 1) j → StretchEnd s i .action j
  | modifier : StretchEnd s i .modifier (i + 1)
  | rule {name : Text} {colon : Option Nat} {stop : Nat} :
      s.BoundsFrom (i + 1) (colon, some stop) → StretchEnd s i (.rule name) (stop + 1)
  | stray : StretchEnd s i .stray (i + 1)

/-- **The looks of a scan from an index on**: each is where the stretch of the one in
front of it ends.  The scan is over at the end of the stream, or with a rule that has
no semicolon. -/
inductive Looks (s : TokenStream) : Nat → List Visit → Prop
  | done {i : Nat} : s.size ≤ i → Looks s i []
  | unended {i : Nat} {v : Visit} {name : Text} {colon : Option Nat} :
      i < s.size → v.index = i → v.opening = .rule name →
      s.BoundsFrom (i + 1) (colon, none) → Looks s i [v]
  | next {i j : Nat} {v : Visit} {visits : List Visit} :
      i < s.size → v.index = i → s.StretchEnd i v.opening j → Looks s j visits →
      Looks s i (v :: visits)

end TokenStream

namespace Rule

variable {r : Rule} {name : Text} {span : RuleSpan} {s : TokenStream}

theorem make_eq_ok (hspan : span.Ordered) (hsize : span.stop < s.size) :
    Rule.make name span s = .ok { name, span } := by
  rw [make, if_neg (not_not_intro hspan), if_neg (Nat.not_le_of_lt hsize)]

theorem eq_of_make (h : make name span s = .ok r) : r = { name, span } := by
  unfold make at h
  split_ifs at h
  exact (Except.ok.inj h).symm

/-- Completing a rule sets its mark for left recursion and no more. -/
theorem eq_of_completed {r' : Rule} (h : r.completed s = .ok r') :
    r' = { r with leftRecursive := r'.leftRecursive } := by
  obtain ⟨b, -, h⟩ := exists_of_bind_ok h
  rw [← Except.ok.inj h]

end Rule

namespace TokenStream

variable {s : TokenStream} {t : Token} {i : Nat} {name : Text}

theorem StartsRule.of_get? (h : s.StartsRule i name) (ht : s.get? i = some t) :
    t.kind = .id ∧ s.text t = .ok name := by
  obtain ⟨u, hu, hfacts⟩ := h.identifier
  obtain rfl : u = t := Option.some.inj (hu.symm.trans ht)
  exact hfacts

theorem opensHeader_yields (hr : s.Readable) (i : Nat) (text : Text) :
    Yields (s.opensHeader i text) fun header => header = true ↔ text ∈ Opening.headerWords ∨
      text ∈ Opening.grammarKinds ∧ s.textAt (i + 1) = .ok "grammar".toList := by
  unfold opensHeader
  split
  · rename_i hheader
    exact .of_ok (iff_of_true rfl (.inl hheader))
  rename_i hheader
  split
  · rename_i hgrammar
    refine (hr.textAt (i + 1)).bind fun next hnext _ => .of_ok ?_
    rw [decide_eq_true_iff, hnext, Except.ok.injEq]
    exact ⟨fun h => .inr ⟨hgrammar, h⟩, fun h => (h.resolve_left hheader).2⟩
  · rename_i hgrammar
    refine .of_ok (iff_of_false Bool.false_ne_true ?_)
    rintro (h | ⟨h, -⟩)
    · exact hheader h
    · exact hgrammar h

/-- What a token is taken for can always be said, and it is taken for a rule's name
just where a rule starts. -/
theorem opening_yields (hr : s.Readable) (ht : s.get? i = some t) :
    Yields (s.opening i t) fun opening =>
      ∀ name, opening = .rule name ↔ s.StartsRule i name := by
  have hother : ∀ {opening : Opening}, (∀ name, opening ≠ .rule name) →
      (∀ name, s.StartsRule i name → False) →
      ∀ name, opening = .rule name ↔ s.StartsRule i name := by
    intro opening hopening hstarts name
    exact iff_of_false (hopening name) (hstarts name)
  refine (hr.text (mem_of_get? ht)).bind ?_
  intro text htext _
  have hname : ∀ name, s.StartsRule i name → name = text := by
    intro name h
    exact Except.ok.inj ((h.of_get? ht).2.symm.trans htext)
  split
  · rename_i hat
    refine .of_ok (hother nofun fun name h => ?_)
    exact absurd (hat.symm.trans (h.of_get? ht).1) (by decide)
  split
  · rename_i hid
    exact .of_ok (hother nofun fun name h => hid (h.of_get? ht).1)
  rename_i hid
  refine (opensHeader_yields hr i text).bind ?_
  intro header _ hheader
  split
  · rename_i htrue
    refine .of_ok (hother nofun fun name h => ?_)
    obtain rfl := hname name h
    rcases hheader.mp htrue with hword | ⟨hkind, hnext⟩
    · exact h.no_header hword
    · exact h.no_grammar hkind hnext
  rename_i hfalse
  split
  · rename_i hsettings
    refine .of_ok (hother nofun fun name h => ?_)
    obtain rfl := hname name h
    obtain ⟨u, hu, hblock⟩ := (Option.any_eq_true _ _).mp hsettings.2
    exact h.no_settings hsettings.1 u hu (of_decide_eq_true hblock)
  rename_i hsettings
  split
  · rename_i haction
    exact .of_ok (hother nofun fun name h => h.no_action (hname name h ▸ haction))
  rename_i haction
  split
  · rename_i hmodifier
    exact .of_ok (hother nofun fun name h => h.no_modifier (hname name h ▸ hmodifier))
  rename_i hmodifier
  refine .of_ok fun name => ⟨?_, fun h => (hname name h) ▸ rfl⟩
  rintro ⟨⟩
  refine ⟨⟨t, ht, Decidable.not_not.mp hid, htext⟩, ?_, ?_, ?_, haction, hmodifier⟩
  · exact fun hword => hfalse (hheader.mpr (.inl hword))
  · exact fun hkind hnext => hfalse (hheader.mpr (.inr ⟨hkind, hnext⟩))
  · intro hword u hu hblock
    refine hsettings ⟨hword, ?_⟩
    rw [hu]
    exact decide_eq_true hblock

/-- A report can always be made: its range does not run backwards. -/
theorem malformed_yields (hr : s.Readable) (hf : s.Forward) {last : Nat} (hlast : i ≤ last)
    (hsize : last < s.size) (name : Text) :
    Yields (s.malformed name i last) fun ds => ∃ range,
      (s.get? i).map (·.span.start) = some range.start ∧
      (s.get? last).map (·.span.stop) = some range.stop ∧
      ds = [.report .malformedRule (some range) (some name)] := by
  obtain ⟨t, ht⟩ := exists_get? (Nat.lt_of_le_of_lt hlast hsize)
  obtain ⟨u, hu⟩ := exists_get? hsize
  have hspan : Span.Forward ⟨t.span.start, u.span.stop⟩ := hf.forward_span hr ht hu hlast
  have hrange : Span.forward ⟨t.span.start, u.span.stop⟩ = .ok ⟨t.span.start, u.span.stop⟩ :=
    if_pos hspan
  rw [malformed, ht, hu]
  simp only [hrange]
  exact .of_ok ⟨⟨t.span.start, u.span.stop⟩, rfl, rfl, rfl⟩

/-- Bounds that are in order are never turned down. -/
theorem declared_yields (hr : s.Readable) {span : RuleSpan} (hspan : span.Ordered)
    (hsize : span.stop < s.size) (name : Text) :
    Yields (s.declared name span) fun rules => ∃ made r,
      Rule.make name span s = .ok made ∧ made.completed s = .ok r ∧ rules = [r] := by
  have hmake : Rule.make name span s = .ok { name, span } := Rule.make_eq_ok hspan hsize
  obtain ⟨r, hr', -⟩ := Rule.completed_yields hr { name, span }
  rw [declared, hmake]
  simp only [hr']
  exact .of_ok ⟨_, r, rfl, hr', rfl⟩

/-! ## One step -/

/-- What a look at the index `i` leaves behind it: the visit is accounted for, the scan
goes on behind its stretch, and a rule it found is delimited by its span, which ends
right in front of that place. -/
structure Stepped (s : TokenStream) (i : Nat) (p : Visit × Option Nat) : Prop where
  index : p.1.index = i
  accounted : p.1.Accounted s
  next : ∀ j, p.2 = some j → s.StretchEnd i p.1.opening j
  last : p.2 = none →
    ∃ name colon, p.1.opening = .rule name ∧ s.BoundsFrom (i + 1) (colon, none)
  rules : ∀ r ∈ p.1.rules, r.span.Delimits s r.name ∧ r.span.start = i ∧
    r.references = {} ∧ p.2 = some (r.span.stop + 1)

/-- The look at the index is at a rule's name, behind which there are the bounds. -/
structure AtName (s : TokenStream) (i : Nat) (t : Token) (name : Text)
    (bounds : Option Nat × Option Nat) : Prop where
  token : s.get? i = some t
  opening : s.opening i t = .ok (.rule name)
  starts : ∀ other, Opening.rule name = .rule other ↔ s.StartsRule i other
  bounds : s.BoundsFrom (i + 1) bounds

variable {colon stop : Nat} {bounds : Option Nat × Option Nat}

/-- A look at a name that misses a bound comes to a report. -/
theorem reported_yields (hr : s.Readable) (hf : s.Forward) (h : s.AtName i t name bounds)
    (hmissing : bounds.1 = none ∨ bounds.2 = none) (hlast : i ≤ bounds.2.getD (s.size - 1))
    (hsize : bounds.2.getD (s.size - 1) < s.size) :
    Yields (do return (⟨i, .rule name, [], ← s.malformed name i (bounds.2.getD (s.size - 1))⟩,
      bounds.2.map (· + 1))) (s.Stepped i) := by
  refine (malformed_yields hr hf hlast hsize name).bind ?_
  intro ds _ hds
  obtain ⟨range, hstart, hstop, rfl⟩ := hds
  refine .of_ok ⟨rfl, ⟨⟨t, h.token, h.opening⟩, h.starts, ?_, ?_⟩, ?_, ?_, nofun⟩
  · rintro _ ⟨⟩
    exact .inr ⟨bounds, range, h.bounds, hmissing, hstart, hstop, rfl, rfl⟩
  · intro hother
    exact absurd rfl (hother name)
  · intro j hj
    obtain ⟨stop, hstop, rfl⟩ := Option.map_eq_some_iff.mp hj
    have hbounds : bounds = (bounds.1, some stop) := Prod.ext rfl hstop
    exact .rule (hbounds ▸ h.bounds)
  · intro hnone
    have hbounds : bounds = (bounds.1, none) := Prod.ext rfl (Option.map_eq_none_iff.mp hnone)
    exact ⟨name, bounds.1, rfl, hbounds ▸ h.bounds⟩

/-- A look at a name that finds both bounds comes to a rule. -/
theorem ruled_yields (hr : s.Readable) (h : s.AtName i t name (some colon, some stop)) :
    Yields (do return (⟨i, .rule name, ← s.declared name ⟨i, colon, stop⟩, []⟩, some (stop + 1)))
      (s.Stepped i) := by
  obtain ⟨hcolon, htext, hsemi⟩ : i < colon ∧ s.textAt colon = .ok [':'] ∧
      s.FirstText [';'] (colon + 1) stop := by
    cases h.bounds with
    | both hprelude htext hsemi => exact ⟨hprelude.le, htext, hsemi⟩
  have hordered : (RuleSpan.mk i colon stop).Ordered := ⟨Nat.le_of_lt hcolon, hsemi.le⟩
  refine (declared_yields hr hordered hsemi.lt_size name).bind ?_
  intro rules _ hrules
  obtain ⟨made, r, hmake, hcompleted, rfl⟩ := hrules
  refine .of_ok ⟨rfl, ⟨⟨t, h.token, h.opening⟩, h.starts, ?_, ?_⟩, ?_, nofun, ?_⟩
  · rintro _ ⟨⟩
    exact .inl ⟨colon, stop, made, r, h.bounds, hmake, hcompleted, rfl, rfl⟩
  · intro hother
    exact absurd rfl (hother name)
  · rintro j ⟨⟩
    exact .rule h.bounds
  · intro r' hmem
    obtain rfl := List.mem_singleton.mp hmem
    obtain rfl : { name, span := ⟨i, colon, stop⟩ } = made :=
      Except.ok.inj ((Rule.make_eq_ok hordered hsemi.lt_size).symm.trans hmake)
    obtain ⟨b, -, heq⟩ := exists_of_bind_ok hcompleted
    cases heq
    have hname := ((h.starts name).mp rfl).identifier
    refine ⟨⟨hcolon, hsemi.le, hsemi.lt_size, hname, htext, hsemi.text_at, ?_⟩, rfl, rfl, rfl⟩
    intro j hj hj'
    exact hsemi.none_before j hj hj'

theorem visitRule_yields (hr : s.Readable) (hf : s.Forward) (ht : s.get? i = some t)
    (hopening : s.opening i t = .ok (.rule name))
    (hstarts : ∀ other, Opening.rule name = .rule other ↔ s.StartsRule i other) :
    Yields (s.visitRule i name) (s.Stepped i) := by
  have hi := lt_of_get? ht
  obtain ⟨bounds, hfind, hbounds⟩ := ruleBounds_none_yields hr (i + 1) hi
  have hname : s.AtName i t name bounds := ⟨ht, hopening, hstarts, hbounds⟩
  rw [visitRule, hfind]
  cases hbounds with
  | both _ _ _ => exact ruled_yields hr hname
  | uncoloned hprelude hlt _ =>
    have hle := hprelude.le
    exact reported_yields hr hf hname (.inl rfl) (Nat.le_of_succ_le hle) hlt
  | unended _ _ _ =>
    exact reported_yields hr hf hname (.inr rfl) (Nat.le_sub_one_of_lt hi) (Nat.sub_one_lt_of_lt hi)
  | unendedClause _ _ _ =>
    exact reported_yields hr hf hname (.inr rfl) (Nat.le_sub_one_of_lt hi) (Nat.sub_one_lt_of_lt hi)
  | neither _ =>
    exact reported_yields hr hf hname (.inr rfl) (Nat.le_sub_one_of_lt hi) (Nat.sub_one_lt_of_lt hi)

/-- A look at anything but a name comes to nothing. -/
theorem stepped_quiet {opening : Opening} {j : Nat} (ht : s.get? i = some t)
    (hopening : s.opening i t = .ok opening)
    (hstarts : ∀ name, opening = .rule name ↔ s.StartsRule i name)
    (hother : ∀ name, opening ≠ .rule name) (hend : s.StretchEnd i opening j) :
    s.Stepped i (⟨i, opening, [], []⟩, some j) := by
  refine ⟨rfl, ⟨⟨t, ht, hopening⟩, hstarts, ?_, fun _ => ⟨rfl, rfl⟩⟩, ?_, nofun, nofun⟩
  · intro name hname
    exact absurd hname (hother name)
  · rintro _ ⟨⟩
    exact hend

/-- **One step of the scan.** -/
theorem visit_yields (hr : s.Readable) (hf : s.Forward) (ht : s.get? i = some t) :
    Yields (s.visit i t) (s.Stepped i) := by
  obtain ⟨opening, hopening, hstarts⟩ := opening_yields hr ht
  rw [visit, hopening]
  cases opening with
  | header =>
    refine (skipPastSemi_yields hr i).bind ?_
    rintro j - (⟨stop, hstop, rfl⟩ | ⟨hnone, rfl⟩)
    · exact .of_ok (stepped_quiet ht hopening hstarts nofun (.header hstop))
    · exact .of_ok (stepped_quiet ht hopening hstarts nofun (.unendedHeader hnone))
  | settings => exact .of_ok (stepped_quiet ht hopening hstarts nofun .settings)
  | action =>
    have hend := actionEnd_skipThroughBlock (Nat.succ_le_of_lt (lt_of_get? ht))
    exact .of_ok (stepped_quiet ht hopening hstarts nofun (.action hend))
  | modifier => exact .of_ok (stepped_quiet ht hopening hstarts nofun .modifier)
  | rule name => exact visitRule_yields hr hf ht hopening hstarts
  | stray => exact .of_ok (stepped_quiet ht hopening hstarts nofun .stray)

/-! ## A whole scan -/

/-- What a scan from the index `i` on leaves behind it. -/
structure Scanned (s : TokenStream) (i : Nat) (visits : List Visit) : Prop where
  looks : s.Looks i visits
  accounted : ∀ v ∈ visits, v.Accounted s
  from_index : ∀ v ∈ visits, i ≤ v.index
  increasing : visits.Pairwise fun v w => v.index < w.index
  rules : ∀ v ∈ visits, ∀ r ∈ v.rules,
    r.span.Delimits s r.name ∧ r.span.start = v.index ∧ r.references = {}
  disjoint : visits.Pairwise fun v w => ∀ r ∈ v.rules, r.span.stop < w.index

theorem scanned_nil (hi : s.size ≤ i) : s.Scanned i [] where
  looks := .done hi
  accounted := nofun
  from_index := nofun
  increasing := .nil
  rules := nofun
  disjoint := .nil

variable {v : Visit} {visits : List Visit}

/-- A step behind which the scan does not go on. -/
theorem scanned_last (hi : i < s.size) (hv : s.Stepped i (v, none)) : s.Scanned i [v] where
  looks := by
    obtain ⟨name, colon, hname, hbounds⟩ := hv.last rfl
    exact .unended hi hv.index hname hbounds
  accounted := List.forall_mem_singleton.mpr hv.accounted
  from_index := List.forall_mem_singleton.mpr (Nat.le_of_eq hv.index.symm)
  increasing := List.pairwise_singleton _ v
  rules := by
    refine List.forall_mem_singleton.mpr ?_
    intro r hmem
    obtain ⟨-, -, -, hnext⟩ := hv.rules r hmem
    cases hnext
  disjoint := List.pairwise_singleton _ v

/-- A step in front of a scan that goes on where the step says. -/
theorem Scanned.cons {j : Nat} (hi : i < s.size) (hij : i < j) (hv : s.Stepped i (v, some j))
    (h : s.Scanned j visits) : s.Scanned i (v :: visits) where
  looks := .next hi hv.index (hv.next j rfl) h.looks
  accounted := List.forall_mem_cons.mpr ⟨hv.accounted, h.accounted⟩
  from_index := by
    refine List.forall_mem_cons.mpr ⟨Nat.le_of_eq hv.index.symm, ?_⟩
    intro w hw
    exact Nat.le_trans (Nat.le_of_lt hij) (h.from_index w hw)
  increasing := by
    refine List.pairwise_cons.mpr ⟨?_, h.increasing⟩
    intro w hw
    have hle := h.from_index w hw
    have hindex : v.index = i := hv.index
    omega
  rules := by
    refine List.forall_mem_cons.mpr ⟨?_, h.rules⟩
    intro r hmem
    obtain ⟨hspan, hstart, hrefs, -⟩ := hv.rules r hmem
    exact ⟨hspan, hstart.trans hv.index.symm, hrefs⟩
  disjoint := by
    refine List.pairwise_cons.mpr ⟨?_, h.disjoint⟩
    intro w hw r hmem
    obtain ⟨-, -, -, hnext⟩ := hv.rules r hmem
    have hle := h.from_index w hw
    have hj : j = r.span.stop + 1 := Option.some.inj hnext
    omega

/-- **A scan goes from look to look, each behind what the one before it found.** -/
theorem scanFrom_yields (hr : s.Readable) (hf : s.Forward) (i : Nat) :
    Yields (s.scanFrom i) (s.Scanned i) := by
  rw [scanFrom]
  split
  · rename_i hnone
    exact .of_ok (scanned_nil (List.getElem?_eq_none_iff.mp hnone))
  · rename_i t ht
    have hi := lt_of_get? ht
    obtain ⟨⟨v, next⟩, hvisit, hv⟩ := visit_yields hr hf ht
    split
    · rename_i fault hfault
      rw [hvisit] at hfault
      cases hfault
    · rename_i w hw
      obtain ⟨rfl, rfl⟩ := Prod.mk.inj (Except.ok.inj (hvisit.symm.trans hw))
      exact .of_ok (scanned_last hi hv)
    · rename_i w j hw
      obtain ⟨rfl, rfl⟩ := Prod.mk.inj (Except.ok.inj (hvisit.symm.trans hw))
      have hij := lt_of_visit hi hw
      refine (scanFrom_yields hr hf j).bind ?_
      intro visits _ hvisits
      exact .of_ok (.cons hi hij hv hvisits)
termination_by s.size - i

/-- The rules of a scan, in the order in which they were found, do not overlap. -/
theorem Scanned.pairwise_rules (h : s.Scanned i visits) :
    (visits.flatMap (·.rules)).Pairwise fun r r' => r.span.stop < r'.span.start := by
  refine List.pairwise_flatMap.mpr ⟨?_, ?_⟩
  · intro v hv
    have hlength : v.rules.length ≤ 1 := (h.accounted v hv).length_rules_le
    match hrules : v.rules, hlength with
    | [], _ => exact .nil
    | [r], _ => exact List.pairwise_singleton _ r
  · refine List.Pairwise.imp_of_mem ?_ h.disjoint
    intro v w hv hw hlt r hr r' hr'
    obtain ⟨-, hstart, -⟩ := h.rules w hw r' hr'
    exact hstart ▸ hlt r hr

end TokenStream
end GrammarAtlas
