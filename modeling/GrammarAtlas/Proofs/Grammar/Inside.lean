import GrammarAtlas.Proofs.Grammar.Steps
import GrammarAtlas.Proofs.Rule.Inside

/-!
# The scan of a stream inside another one

Where a stream stands inside another one, the scan of the other one makes the looks that
the scan of the stream makes, each as many tokens further on (`Inside.scanFrom`).  What is
behind the stream makes no difference, since every search ends at a semicolon at the
latest: at the last token of the stream, if the other one goes on.

There is one exception.  A rule without a semicolon takes in all that comes behind, so
nothing is said about a stream with such a rule unless the other one ends with it.
-/

namespace GrammarAtlas

/-- The same report on another place: the ends of its range are related by `m`. -/
structure Diagnostic.Carried (m : Nat → Nat → Prop) (d d' : Diagnostic) : Prop where
  kind : d'.kind = d.kind
  message : d'.message = d.message
  range : ∃ a b, d.range = some a ∧ d'.range = some b ∧ m a.start b.start ∧ m a.stop b.stop

/-- The same look that many tokens further on. -/
structure Visit.Carried (m : Nat → Nat → Prop) (k : Nat) (v v' : Visit) : Prop where
  index : v'.index = k + v.index
  opening : v'.opening = v.opening
  rules : v'.rules = v.rules.map (·.moved k)
  reports : List.Forall₂ (Diagnostic.Carried m) v.reports v'.reports

namespace TokenStream

variable {m : Nat → Nat → Prop} {k i j : Nat} {s s' : TokenStream} {t t' : Token} {text name : Text}

/-! ## The searches -/

namespace Inside

theorem noText (h : Inside m k s s') (hfull : s'.size = k + s.size) (hnone : s.NoText text i) :
    s'.NoText text (k + i) := by
  intro n hn hn'
  obtain ⟨n, rfl⟩ := Nat.exists_eq_add_of_le (Nat.le_trans (Nat.le_add_right k i) hn)
  have hlt : n < s.size := by omega
  rw [h.textAt (.inl hlt)]
  exact hnone n (by omega) hlt

theorem findText {found : Option Nat} (h : Inside m k s s') (hr : s.Readable) (hr' : s'.Readable)
    (hfind : s.findText text i = .ok found) (hend : found = none → s'.size = k + s.size) :
    s'.findText text (k + i) = .ok (found.map (k + ·)) := by
  obtain ⟨_, hfind', hfound⟩ := findText_yields hr text i
  obtain rfl := Except.ok.inj (hfind.symm.trans hfind')
  cases found with
  | none => exact findText_of_noText hr' (h.noText (hend rfl) (hfound.missing rfl))
  | some j => exact findText_of_firstText hr' (h.firstText (hfound.first j rfl))

/-- A stream that goes on in the other one has a semicolon behind each of its indices. -/
theorem size_eq_of_noText (h : Inside m k s s') (hi : i < s.size) (hnone : s.NoText [';'] i) :
    s'.size = k + s.size := by
  refine h.closed.resolve_right ?_
  rintro ⟨t, ht, -, htext⟩
  refine hnone (s.size - 1) (by omega) (by omega) ?_
  rw [textAt_of_get? ht, htext]

theorem skipPastSemi (h : Inside m k s s') (hr : s.Readable) (hr' : s'.Readable) (hi : i < s.size)
    (hskip : s.skipPastSemi i = .ok j) :
    s'.skipPastSemi (k + i) = .ok (k + j) ∧ j ≤ s.size := by
  obtain ⟨found, hfind, hfound⟩ := findText_yields hr [';'] i
  rw [TokenStream.skipPastSemi, hfind] at hskip
  cases found with
  | none =>
    have hfull := h.size_eq_of_noText hi (hfound.missing rfl)
    obtain rfl : s.size = j := Except.ok.inj hskip
    rw [TokenStream.skipPastSemi, h.findText hr hr' hfind fun _ => hfull, ← hfull]
    exact ⟨rfl, Nat.le_refl _⟩
  | some stop =>
    obtain rfl : stop + 1 = j := Except.ok.inj hskip
    have hfirst := hfound.first stop rfl
    rw [TokenStream.skipPastSemi, findText_of_firstText hr' (h.firstText hfirst)]
    exact ⟨rfl, hfirst.lt_size⟩

theorem skipThroughBlock (h : Inside m k s s') (hi : Sees k s s' i) :
    s'.skipThroughBlock (k + i) = k + s.skipThroughBlock i := by
  fun_induction TokenStream.skipThroughBlock s i with
  | case1 i hnone => rw [skipThroughBlock_of_none (hi.get?_eq_none hnone)]
  | case2 i t ht hblock =>
    obtain ⟨t', ht', hkind, -⟩ := h.token i t ht
    rw [skipThroughBlock_of_get? ht', hkind, if_pos hblock, Nat.add_assoc]
  | case3 i t ht hblock hmark =>
    obtain ⟨t', ht', hkind, -⟩ := h.token i t ht
    rw [skipThroughBlock_of_get? ht', hkind, if_neg hblock, if_pos hmark]
  | case4 i t ht hblock hmark ih =>
    obtain ⟨t', ht', hkind, -⟩ := h.token i t ht
    rw [skipThroughBlock_of_get? ht', hkind, if_neg hblock, if_neg hmark, Nat.add_assoc,
      ih (h.sees_succ ht (.inl fun hsemi => hmark (.inl hsemi)))]

/-- **The bounds of a rule** are found in the other stream, too.  If there is no semicolon,
the other stream has to end. -/
theorem ruleBounds {i : Nat} {colon : Option Nat} {bounds : Option Nat × Option Nat}
    (h : Inside m k s s') (hr : s.Readable) (hr' : s'.Readable)
    (hbounds : s.ruleBounds colon i = .ok bounds)
    (hend : bounds.2 = none → s'.size = k + s.size) :
    s'.ruleBounds (colon.map (k + ·)) (k + i) =
      .ok (bounds.1.map (k + ·), bounds.2.map (k + ·)) := by
  by_cases hlt : i < s.size
  · obtain ⟨text, htext, -⟩ := hr.textAt i
    have htext' := (h.textAt (.inl hlt)).trans htext
    rw [ruleBounds_of_textAt hlt htext] at hbounds
    rw [ruleBounds_of_textAt (h.lt_size hlt) htext']
    by_cases hsemi : text = [';']
    · subst hsemi
      cases hbounds
      rfl
    · have hsucc : Sees k s s' (i + 1) := by
        obtain ⟨t, ht⟩ := exists_get? hlt
        refine h.sees_succ ht (.inr fun hhere => hsemi ?_)
        exact Except.ok.inj (htext.symm.trans ((textAt_of_get? ht).trans hhere))
      have hid := h.any_kind hsucc .id
      rw [← Nat.add_assoc] at hid
      simp only [Option.map_eq_none_iff, hid, if_neg hsemi] at hbounds ⊢
      split_ifs at hbounds ⊢ with hcolon hclause
      · exact h.ruleBounds hr hr' hbounds hend
      · obtain ⟨found, hfind, hbounds⟩ := exists_of_bind_ok hbounds
        cases found with
        | none =>
          cases hbounds
          have hfind' := h.findText hr hr' hfind fun _ => hend rfl
          rw [← Nat.add_assoc] at hfind'
          rw [hfind']
          rfl
        | some semi =>
          have hle := le_of_findText hfind
          have hfind' := h.findText hr hr' hfind nofun
          rw [← Nat.add_assoc] at hfind'
          rw [hfind']
          exact h.ruleBounds hr hr' hbounds hend
      · exact h.ruleBounds hr hr' hbounds hend
  · have hsize := Nat.le_of_not_lt hlt
    rw [ruleBounds_of_size_le hsize] at hbounds
    cases hbounds
    have hfull := hend rfl
    exact ruleBounds_of_size_le (by omega)
termination_by s.size - i

theorem opening (h : Inside m k s s') (ht : s.get? i = some t) (hkind : t'.kind = t.kind)
    (htext : s'.text t' = s.text t) : s'.opening (k + i) t' = s.opening i t := by
  by_cases hid : t.kind = .id
  · have hsucc : Sees k s s' (i + 1) := h.sees_succ ht (.inl (by rw [hid]; decide))
    have htext' := h.textAt hsucc
    have hblock := h.any_kind hsucc .block
    rw [← Nat.add_assoc] at htext' hblock
    have hheader (text : Text) : s'.opensHeader (k + i) text = s.opensHeader i text := by
      rw [opensHeader, opensHeader, htext']
    simp only [TokenStream.opening, htext, hkind, hheader, hblock]
  · simp only [TokenStream.opening, htext, hkind, if_pos hid]

/-- The report on a rule is the same, on the place where the rule is. -/
theorem malformed {last : Nat} {ds : Diagnostics} (h : Inside m k s s') (hr : s.Readable)
    (hf : s.Forward) (hr' : s'.Readable) (hf' : s'.Forward) (hlast : i ≤ last)
    (hsize : last < s.size) (hmalformed : s.malformed name i last = .ok ds) :
    ∃ ds', s'.malformed name (k + i) (k + last) = .ok ds' ∧
      List.Forall₂ (Diagnostic.Carried m) ds ds' := by
  obtain ⟨_, hds, range, hstart, hstop, rfl⟩ := malformed_yields hr hf hlast hsize name
  obtain rfl := Except.ok.inj (hmalformed.symm.trans hds)
  obtain ⟨ds', hds', range', hstart', hstop', rfl⟩ :=
    malformed_yields hr' hf' (Nat.add_le_add_left hlast k) (h.lt_size hsize) name
  refine ⟨_, hds', .cons ⟨rfl, rfl, range, range', rfl, rfl, ?_, ?_⟩ .nil⟩
  · obtain ⟨t, ht, hspan⟩ := Option.map_eq_some_iff.mp hstart
    obtain ⟨t', ht', -, -, hm, -⟩ := h.token i t ht
    rw [ht'] at hstart'
    rw [← hspan, ← Option.some.inj hstart']
    exact hm
  · obtain ⟨t, ht, hspan⟩ := Option.map_eq_some_iff.mp hstop
    obtain ⟨t', ht', -, -, -, hm⟩ := h.token last t ht
    rw [ht'] at hstop'
    rw [← hspan, ← Option.some.inj hstop']
    exact hm

/-- A rule between bounds that have been found is the same rule, moved on. -/
theorem declared {span : RuleSpan} {rules : List Rule} (h : Inside m k s s') (hr : s.Readable)
    (hr' : s'.Readable) (hspan : span.Ordered) (hsize : span.stop < s.size)
    (hcolon : s.textAt span.colon = .ok [':']) (hrules : s.declared name span = .ok rules) :
    s'.declared name (span.moved k) = .ok (rules.map (·.moved k)) := by
  obtain ⟨c, hfirst, hc⟩ := exists_firstText hr hspan.1 (Nat.lt_trans hspan.2 hsize) hcolon
  have hmake : Rule.make name span s = .ok { name, span } := Rule.make_eq_ok hspan hsize
  have hmake' : Rule.make name (span.moved k) s' = .ok (Rule.moved k { name, span }) :=
    Rule.make_eq_ok (span.ordered_moved k hspan) (h.lt_size hsize)
  rw [TokenStream.declared, hmake] at hrules
  obtain ⟨r, hdone, hrules⟩ := exists_of_bind_ok hrules
  cases hrules
  have hmoved := Rule.completed_moved h hr hr' hfirst (Nat.lt_of_le_of_lt hc hspan.2)
    (Nat.le_of_lt hsize) hdone
  rw [TokenStream.declared, hmake']
  simp only [hmoved]
  rfl

end Inside

/-! ## One look -/

/-- A look is made in another stream, too, and there it is `look'`.  It does not get past the
end of the stream. -/
structure Repeated (m : Nat → Nat → Prop) (k : Nat) (s : TokenStream) (v : Visit)
    (next : Option Nat) (look' : Except ReadFault (Visit × Option Nat)) : Prop where
  look : ∃ v', look' = .ok (v', next.map (k + ·)) ∧ v.Carried m k v'
  next_le : ∀ j, next = some j → j ≤ s.size

variable {v : Visit} {next : Option Nat}

/-- A look that comes to nothing. -/
theorem repeated_quiet {opening : Opening} {j' : Nat} (hj : j ≤ s.size) (hj' : j' = k + j) :
    Repeated m k s ⟨i, opening, [], []⟩ (some j) (.ok (⟨k + i, opening, [], []⟩, some j')) where
  look := ⟨⟨k + i, opening, [], []⟩, hj' ▸ rfl, ⟨rfl, rfl, rfl, .nil⟩⟩
  next_le := by
    rintro _ ⟨⟩
    exact hj

namespace Inside

/-- A look at a rule's name finds the same bounds and makes the same of them. -/
theorem visitRule (h : Inside m k s s') (hr : s.Readable) (hf : s.Forward) (hr' : s'.Readable)
    (hf' : s'.Forward) (hi : i < s.size) (hvisit : s.visitRule i name = .ok (v, next))
    (hend : next = none → s'.size = k + s.size) :
    Repeated m k s v next (s'.visitRule (k + i) name) := by
  obtain ⟨⟨colon, stop⟩, hfind, hvisit⟩ := exists_of_bind_ok hvisit
  obtain ⟨_, hfind', hbounds⟩ := ruleBounds_none_yields hr (i + 1) hi
  obtain rfl := Except.ok.inj (hfind.symm.trans hfind')
  have hmoved : (stop = none → s'.size = k + s.size) → s'.ruleBounds none (k + i + 1) =
      .ok (colon.map (k + ·), stop.map (k + ·)) := h.ruleBounds hr hr' hfind
  rw [TokenStream.visitRule]
  cases stop with
  | none =>
    obtain ⟨ds, hds, hvisit⟩ := exists_of_bind_ok hvisit
    cases hvisit
    have hfull := hend rfl
    obtain ⟨ds', hds', hcarried⟩ := h.malformed hr hf hr' hf' (Nat.le_sub_one_of_lt hi)
      (Nat.sub_one_lt_of_lt hi) hds
    have hlast : s'.size - 1 = k + (s.size - 1) := by omega
    rw [hmoved fun _ => hfull, hlast]
    simp only [bind, Except.bind, Option.map_none, hds']
    refine ⟨⟨_, rfl, ⟨rfl, rfl, rfl, hcarried⟩⟩, ?_⟩
    rintro _ ⟨⟩
  | some stop =>
    rw [hmoved fun hnone => absurd hnone (Option.some_ne_none stop)]
    cases colon with
    | none =>
      obtain ⟨ds, hds, hvisit⟩ := exists_of_bind_ok hvisit
      cases hvisit
      obtain ⟨hle, hlt⟩ : i + 1 ≤ stop ∧ stop < s.size := by
        cases hbounds with
        | uncoloned hprelude hlt _ => exact ⟨hprelude.le, hlt⟩
      obtain ⟨ds', hds', hcarried⟩ := h.malformed hr hf hr' hf' (Nat.le_of_succ_le hle) hlt hds
      simp only [bind, Except.bind, Option.map_none, Option.map_some, hds']
      refine ⟨⟨_, rfl, ⟨rfl, rfl, rfl, hcarried⟩⟩, ?_⟩
      rintro _ ⟨⟩
      exact hlt
    | some colon =>
      obtain ⟨rules, hrules, hvisit⟩ := exists_of_bind_ok hvisit
      cases hvisit
      obtain ⟨hle, htext, hsemi⟩ : i + 1 ≤ colon ∧ s.textAt colon = .ok [':'] ∧
          s.FirstText [';'] (colon + 1) stop := by
        cases hbounds with
        | both hprelude htext hsemi => exact ⟨hprelude.le, htext, hsemi⟩
      have hspan : (RuleSpan.mk i colon stop).Ordered := ⟨Nat.le_of_succ_le hle, hsemi.le⟩
      have hrules' := h.declared hr hr' hspan hsemi.lt_size htext hrules
      rw [RuleSpan.moved] at hrules'
      simp only [bind, Except.bind, Option.map_some, hrules']
      refine ⟨⟨_, rfl, ⟨rfl, rfl, rfl, .nil⟩⟩, ?_⟩
      rintro _ ⟨⟩
      exact hsemi.lt_size

/-- **A look is made in the other stream, too.** -/
theorem visit (h : Inside m k s s') (hr : s.Readable) (hf : s.Forward) (hr' : s'.Readable)
    (hf' : s'.Forward) (ht : s.get? i = some t) (hkind : t'.kind = t.kind)
    (htext : s'.text t' = s.text t) (hvisit : s.visit i t = .ok (v, next))
    (hend : next = none → s'.size = k + s.size) :
    Repeated m k s v next (s'.visit (k + i) t') := by
  have hi := lt_of_get? ht
  obtain ⟨opening, hopening, hvisit⟩ := exists_of_bind_ok hvisit
  rw [TokenStream.visit, h.opening ht hkind htext, hopening]
  cases opening with
  | header =>
    obtain ⟨j, hskip, hvisit⟩ := exists_of_bind_ok hvisit
    cases hvisit
    obtain ⟨hskip', hle⟩ := h.skipPastSemi hr hr' hi hskip
    rw [hskip']
    exact repeated_quiet hle rfl
  | settings =>
    cases hvisit
    exact repeated_quiet (lt_size_of_settings hopening) rfl
  | action =>
    cases hvisit
    have hsees : Sees k s s' (i + 1) := by
      refine h.sees_succ ht (.inl fun hsemi => ?_)
      cases opening_of_semi hsemi hopening
    exact repeated_quiet (skipThroughBlock_le hi) (h.skipThroughBlock hsees)
  | modifier =>
    cases hvisit
    exact repeated_quiet hi rfl
  | rule name => exact h.visitRule hr hf hr' hf' hi hvisit hend
  | stray =>
    cases hvisit
    exact repeated_quiet hi rfl

end Inside

/-! ## The whole scan -/

variable {visits visits' : List Visit}

/-- The rules of the looks are the rules of the other looks, moved. -/
theorem rules_of_carried (h : List.Forall₂ (Visit.Carried m k) visits visits') :
    visits'.flatMap (·.rules) = (visits.flatMap (·.rules)).map (·.moved k) := by
  induction h with
  | nil => rfl
  | cons hv _ ih => rw [List.flatMap_cons, List.flatMap_cons, List.map_append, hv.rules, ih]

/-- The reports of the looks are the reports of the other looks, on their places. -/
theorem reports_of_carried (h : List.Forall₂ (Visit.Carried m k) visits visits') :
    List.Forall₂ (Diagnostic.Carried m) (visits.flatMap (·.reports))
      (visits'.flatMap (·.reports)) := by
  induction h with
  | nil => exact .nil
  | cons hv _ ih => exact List.rel_append hv.reports ih

namespace Inside

/-- **The scan of the stream is a part of the scan of the other one.**  Where the other one
goes on, the scan must not have anything to report, and then it goes on behind the stream. -/
theorem scanFrom {i : Nat} {visits rest : List Visit} (h : Inside m k s s') (hr : s.Readable)
    (hf : s.Forward) (hr' : s'.Readable) (hf' : s'.Forward) (hi : i ≤ s.size)
    (hscan : s.scanFrom i = .ok visits)
    (hend : s'.size = k + s.size ∨ ∀ v ∈ visits, v.reports = [])
    (hrest : s'.scanFrom (k + s.size) = .ok rest) :
    ∃ visits', s'.scanFrom (k + i) = .ok (visits' ++ rest) ∧
      List.Forall₂ (Visit.Carried m k) visits visits' := by
  rcases Nat.eq_or_lt_of_le hi with rfl | hlt
  · rw [scanFrom_of_size_le (Nat.le_refl _)] at hscan
    cases hscan
    exact ⟨[], hrest, .nil⟩
  · obtain ⟨t, ht⟩ := exists_get? hlt
    obtain ⟨t', ht', hkind, htext, -⟩ := h.token i t ht
    obtain ⟨⟨v, next⟩, hvisit, -⟩ := visit_yields hr hf ht
    cases next with
    | none =>
      rw [scanFrom_of_visit_none ht hvisit] at hscan
      cases hscan
      have hfull : s'.size = k + s.size := by
        refine hend.resolve_right fun hquiet => ?_
        exact reports_ne_nil_of_visit_none hr hf ht hvisit (hquiet v List.mem_cons_self)
      obtain ⟨v', hvisit', hv⟩ := (h.visit hr hf hr' hf' ht hkind htext hvisit fun _ => hfull).look
      rw [scanFrom_of_size_le (by omega)] at hrest
      cases hrest
      exact ⟨[v'], scanFrom_of_visit_none ht' hvisit', .cons hv .nil⟩
    | some j =>
      rw [scanFrom_of_visit ht hvisit] at hscan
      obtain ⟨more, hmore, hscan⟩ := exists_of_bind_ok hscan
      cases hscan
      obtain ⟨⟨v', hvisit', hv⟩, hj⟩ := h.visit hr hf hr' hf' ht hkind htext hvisit nofun
      have hij := lt_of_visit hlt hvisit
      obtain ⟨more', hmore', hall⟩ := h.scanFrom hr hf hr' hf' (hj j rfl) hmore
        (hend.imp_right fun hquiet w hw => hquiet w (List.mem_cons_of_mem v hw)) hrest
      refine ⟨v' :: more', ?_, .cons hv hall⟩
      rw [scanFrom_of_visit ht' hvisit', hmore']
      rfl
termination_by s.size - i

/-- A rule that has been found has its alternatives in the other stream, too. -/
theorem alternatives {r : Rule} (h : Inside m k s s') (hr : s.Readable) (hr' : s'.Readable)
    (hdelimits : r.span.Delimits s r.name) :
    ∃ as, r.alternatives s = .ok as ∧
      (r.moved k).alternatives s' = .ok (as.map (·.moved k)) := by
  obtain ⟨c, hfirst, hc⟩ := exists_firstText hr (Nat.le_of_lt hdelimits.start_lt_colon)
    (Nat.lt_trans hdelimits.colon_lt_stop hdelimits.stop_lt_size) hdelimits.colon_at_colon
  obtain ⟨as, has, -⟩ := Rule.alternatives_yields hr r
  exact ⟨as, has, Rule.alternatives_moved h hr hr' hfirst
    (Nat.lt_of_le_of_lt hc hdelimits.colon_lt_stop) (Nat.le_of_lt hdelimits.stop_lt_size) has⟩

end Inside
end TokenStream
end GrammarAtlas
