import GrammarAtlas.Graph.Dump
import GrammarAtlas.Proofs.Graph.Ranks
import GrammarAtlas.Proofs.Text.Joined
import GrammarAtlas.Proofs.Token.Reading

/-!
# Drawings and dumps lose nothing

A drawing keeps all edges in one list.  Since the ids of a region are distinct, the edges with a
node's id are those of its state, and so the states can be told from the drawing
(`Graph.Depicts.states_eq`).

A dump is read from the left.  A number ends in front of what is no digit, a label in front of a
space and a name in front of a line feed; what follows then tells which way to go on.  So each
piece that is written tells its value and where it ends, whatever stands behind it, and the
pieces are put together as the dump is (`Graph.dump_inj`).  This takes labels that are
one word and cannot be mistaken for others (`Label.Plain`).
-/

namespace GrammarAtlas

namespace Label

variable {l l' : Label}

/-- The label is one word and is drawn like no label of another kind. -/
def Plain : Label → Prop
  | .epsilon => True
  | .symbol t => t ≠ [] ∧ ' ' ∉ t ∧ '\n' ∉ t ∧ t ≠ ['ε'] ∧ t.head? ≠ some '<'
  | .rule name => name ≠ [] ∧ ' ' ∉ name ∧ '\n' ∉ name

instance : DecidablePred Plain
  | .epsilon => inferInstanceAs (Decidable True)
  | .symbol t => inferInstanceAs (Decidable (t ≠ [] ∧ ' ' ∉ t ∧ '\n' ∉ t ∧ t ≠ ['ε'] ∧
      t.head? ≠ some '<'))
  | .rule name => inferInstanceAs (Decidable (name ≠ [] ∧ ' ' ∉ name ∧ '\n' ∉ name))

/-- **A plain label is one word.** -/
theorem Plain.word (h : l.Plain) : l.text ≠ [] ∧ ' ' ∉ l.text ∧ '\n' ∉ l.text := by
  cases l with
  | epsilon => decide
  | symbol t => exact ⟨h.1, h.2.1, h.2.2.1⟩
  | rule name =>
    refine ⟨List.cons_ne_nil _ _, ?_, ?_⟩
    · simpa [text] using h.2.1
    · simpa [text] using h.2.2

/-- **A plain label is told from how it is drawn.** -/
theorem Plain.text_inj (h : l.Plain) (h' : l'.Plain) (htext : l.text = l'.text) : l = l' := by
  cases l <;> cases l' <;> simp only [text] at htext
  case epsilon.epsilon => rfl
  case epsilon.symbol => exact absurd htext.symm h'.2.2.2.1
  case epsilon.rule => exact absurd (List.cons.inj htext).1 (by decide)
  case symbol.epsilon => exact absurd htext h.2.2.2.1
  case symbol.symbol => rw [htext]
  case symbol.rule => exact absurd (congrArg List.head? htext) h.2.2.2.2
  case rule.epsilon => exact absurd (List.cons.inj htext).1 (by decide)
  case rule.symbol => exact absurd (congrArg List.head? htext).symm h'.2.2.2.2
  case rule.rule => rw [List.append_cancel_right (List.cons.inj htext).2]

end Label

namespace Graph

variable {G G' : Graph} {id : StateId} {e e' : Edge} {es es' : List Edge} {n n' : Node}
  {ns ns' : List Node} {s t : Text}

/-! ## Reading a line -/

/-- The edges all leave the state, and their labels are plain. -/
def PlainFrom (id : StateId) (es : List Edge) : Prop := ∀ e ∈ es, e.source = id ∧ e.label.Plain

/-- What stands behind the first edge of a line. -/
def behindEdge (rest : Text) : List Edge → Text
  | [] => '\n' :: rest
  | es => ", ".toList ++ (edgesText es ++ '\n' :: rest)

theorem edgesText_cons (e : Edge) (es : List Edge) (rest : Text) :
    edgesText (e :: es) ++ '\n' :: rest = edgeText e ++ behindEdge rest es := by
  cases es with
  | nil => rfl
  | cons e' es =>
    show Text.join _ (edgeText e :: edgeText e' :: es.map edgeText) ++ _ = _
    rw [Text.join_cons_cons, List.append_assoc, List.append_assoc]
    rfl

theorem endsNumber_behindEdge (rest : Text) (es : List Edge) :
    Text.EndsNumber (behindEdge rest es) := by
  intro c hc
  cases es <;> obtain rfl := Option.some.inj hc <;> decide

/-- An edge is told from what follows it. -/
theorem edgeText_append_inj (he : e.source = id ∧ e.label.Plain)
    (he' : e'.source = id ∧ e'.label.Plain) (hs : Text.EndsNumber s) (ht : Text.EndsNumber t)
    (h : edgeText e ++ s = edgeText e' ++ t) : e = e' ∧ s = t := by
  have hsplit (e : Edge) (rest : Text) : edgeText e ++ rest =
      e.label.text ++ ' ' :: ("→ S".toList ++ (Text.decimal e.target ++ rest)) := by
    simp [edgeText, StateId.text]
  rw [hsplit, hsplit] at h
  obtain ⟨hlabel, htarget⟩ := Text.append_cons_inj he.2.word.2.1 he'.2.word.2.1 h
  obtain ⟨htarget, hst⟩ := Text.decimal_append_inj hs ht (List.append_cancel_left htarget)
  obtain ⟨source, target, label⟩ := e
  obtain ⟨source', target', label'⟩ := e'
  obtain rfl : source = source' := he.1.trans he'.1.symm
  obtain rfl : target = target' := htarget
  obtain rfl := he.2.text_inj he'.2 hlabel
  exact ⟨rfl, hst⟩

/-- The sign for no edges is told from an edge, even if a label looks like it. -/
theorem edgesText_nil_ne (he : e.label.Plain) :
    edgesText [] ++ '\n' :: s ≠ edgesText (e :: es) ++ '\n' :: t := by
  obtain ⟨hne, -, hfeed⟩ := he.word
  obtain ⟨c, u, hlabel⟩ := List.exists_cons_of_ne_nil hne
  rw [edgesText_cons, edgeText, hlabel]
  rw [hlabel] at hfeed
  intro h
  have htail : '\n' :: s =
      u ++ (' ' :: ("→ ".toList ++ StateId.text e.target ++ behindEdge t es)) := by
    simpa [edgesText] using (List.cons.inj h).2
  cases u with
  | nil => exact absurd (List.cons.inj htail).1 (by decide)
  | cons d u =>
    obtain ⟨rfl, -⟩ := List.cons.inj htail
    exact hfeed (List.mem_cons_of_mem c List.mem_cons_self)

/-- **The edges of a line are told from what follows it.** -/
theorem edgesText_append_inj (hes : PlainFrom id es) (hes' : PlainFrom id es')
    (h : edgesText es ++ '\n' :: s = edgesText es' ++ '\n' :: t) : es = es' ∧ s = t := by
  induction es generalizing es' with
  | nil =>
    cases es' with
    | nil => exact ⟨rfl, (List.cons.inj (List.append_cancel_left h)).2⟩
    | cons e' es' => exact absurd h (edgesText_nil_ne (hes' e' List.mem_cons_self).2)
  | cons e es ih =>
    cases es' with
    | nil => exact absurd h.symm (edgesText_nil_ne (hes e List.mem_cons_self).2)
    | cons e' es' =>
      obtain ⟨he, hmore⟩ := List.forall_mem_cons.mp hes
      obtain ⟨he', hmore'⟩ := List.forall_mem_cons.mp hes'
      rw [edgesText_cons, edgesText_cons] at h
      obtain ⟨rfl, hrest⟩ := edgeText_append_inj he he' (endsNumber_behindEdge s es)
        (endsNumber_behindEdge t es') h
      -- a line feed or a comma tells whether there are more edges
      cases es with
      | nil =>
        cases es' with
        | nil => exact ⟨rfl, (List.cons.inj hrest).2⟩
        | cons => exact absurd (List.cons.inj hrest).1 (by decide)
      | cons =>
        cases es' with
        | nil => exact absurd (List.cons.inj hrest).1 (by decide)
        | cons =>
          obtain ⟨hsame, hst⟩ := ih hmore hmore' (List.append_cancel_left hrest)
          exact ⟨congrArg (e :: ·) hsame, hst⟩

/-- The mark of an accepting node, with the colon. -/
def acceptText (accepting : Bool) : Text :=
  (if accepting then " accept".toList else []) ++ ": ".toList

theorem endsNumber_acceptText (accepting : Bool) (rest : Text) :
    Text.EndsNumber (acceptText accepting ++ rest) := by
  intro c hc
  cases accepting <;> obtain rfl := Option.some.inj hc <;> decide

theorem acceptText_append_inj {accepting accepting' : Bool}
    (h : acceptText accepting ++ s = acceptText accepting' ++ t) :
    accepting = accepting' ∧ s = t := by
  cases accepting <;> cases accepting'
  case false.false => exact ⟨rfl, List.append_cancel_left h⟩
  case false.true => exact absurd (List.cons.inj h).1 (by decide)
  case true.false => exact absurd (List.cons.inj h).1 (by decide)
  case true.true => exact ⟨rfl, List.append_cancel_left h⟩

/-- The line of a node that is labelled with its state, and what follows it. -/
theorem nodeLine_append (hn : n.label = StateId.text n.state) (rest : Text) :
    G.nodeLine true n ++ rest = "  S".toList ++ (Text.decimal n.state ++ (" @".toList ++
      (Text.decimal n.rank ++ (acceptText n.accepting ++
        (edgesText (G.edgesFrom n.state) ++ '\n' :: rest))))) := by
  have hindent (digits : Text) : "  ".toList ++ 'S' :: digits = "  S".toList ++ digits := rfl
  unfold nodeLine nodeHead
  rw [hn, StateId.text, hindent, if_pos rfl, acceptText]
  simp only [List.append_assoc, List.singleton_append]

/-- **A node and its edges are told from what follows their line.** -/
theorem nodeLine_append_inj (hn : n.label = StateId.text n.state)
    (hn' : n'.label = StateId.text n'.state) (hes : PlainFrom n.state (G.edgesFrom n.state))
    (hes' : PlainFrom n'.state (G'.edgesFrom n'.state))
    (h : G.nodeLine true n ++ s = G'.nodeLine true n' ++ t) :
    n = n' ∧ G.edgesFrom n.state = G'.edgesFrom n'.state ∧ s = t := by
  rw [nodeLine_append hn, nodeLine_append hn'] at h
  have hspace (rest : Text) : Text.EndsNumber (" @".toList ++ rest) := by
    intro c hc
    obtain rfl := Option.some.inj hc
    decide
  obtain ⟨hstate, h⟩ := Text.decimal_append_inj (hspace _) (hspace _) (List.append_cancel_left h)
  obtain ⟨hrank, h⟩ := Text.decimal_append_inj (endsNumber_acceptText _ _)
    (endsNumber_acceptText _ _) (List.append_cancel_left h)
  obtain ⟨haccepting, h⟩ := acceptText_append_inj h
  obtain ⟨hedges, hst⟩ := edgesText_append_inj hes (hstate ▸ hes') h
  refine ⟨?_, hedges, hst⟩
  obtain ⟨state, label, accepting, rank⟩ := n
  obtain ⟨state', label', accepting', rank'⟩ := n'
  obtain rfl : state = state' := hstate
  obtain rfl : accepting = accepting' := haccepting
  obtain rfl : rank = rank' := hrank
  obtain rfl : label = label' := hn.trans hn'.symm
  rfl

/-! ## Reading a dump -/

/-- Each node is labelled with its state, and the edges stand in the order of the nodes that they
leave. -/
structure Laid (G : Graph) : Prop where
  label : ∀ n ∈ G.nodes, n.label = StateId.text n.state
  edges : G.edges = G.nodes.flatMap fun n => G.edgesFrom n.state

/-- The name is one line, and the labels are plain. -/
structure Plain (G : Graph) : Prop where
  name : '\n' ∉ G.name
  labels : ∀ e ∈ G.edges, e.label.Plain

theorem Plain.plainFrom (h : G.Plain) (id : StateId) : PlainFrom id (G.edgesFrom id) := by
  intro e he
  obtain ⟨he, hsource⟩ := List.mem_filter.mp he
  exact ⟨of_decide_eq_true hsource, h.labels e he⟩

/-- Nodes and their edges are told from their lines. -/
theorem flatMap_nodeLine_inj (hG : G.Plain) (hG' : G'.Plain)
    (hns : ∀ n ∈ ns, n.label = StateId.text n.state)
    (hns' : ∀ n ∈ ns', n.label = StateId.text n.state)
    (h : ns.flatMap (G.nodeLine true) = ns'.flatMap (G'.nodeLine true)) :
    ns = ns' ∧ ns.flatMap (fun n => G.edgesFrom n.state) =
      ns'.flatMap fun n => G'.edgesFrom n.state := by
  have hne (G : Graph) (n : Node) (rest : Text) : G.nodeLine true n ++ rest ≠ [] := by
    rw [nodeLine, nodeHead]
    exact List.cons_ne_nil _ _
  induction ns generalizing ns' with
  | nil =>
    cases ns' with
    | nil => exact ⟨rfl, rfl⟩
    | cons n' ns' => exact absurd h.symm (hne G' n' _)
  | cons n ns ih =>
    cases ns' with
    | nil => exact absurd h (hne G n _)
    | cons n' ns' =>
      obtain ⟨hn, hlabels⟩ := List.forall_mem_cons.mp hns
      obtain ⟨hn', hlabels'⟩ := List.forall_mem_cons.mp hns'
      rw [List.flatMap_cons, List.flatMap_cons] at h
      obtain ⟨rfl, hedges, hrest⟩ :=
        nodeLine_append_inj hn hn' (hG.plainFrom n.state) (hG'.plainFrom n'.state) h
      obtain ⟨hsame, hmore⟩ := ih hlabels hlabels' hrest
      rw [List.flatMap_cons, List.flatMap_cons, hedges, hmore]
      exact ⟨congrArg (n :: ·) hsame, rfl⟩

/-- **Graphs are told from their dumps.** -/
theorem dump_inj (hlaid : G.Laid) (hlaid' : G'.Laid) (hplain : G.Plain) (hplain' : G'.Plain)
    (h : G.dump true = G'.dump true) : G = G' := by
  have hsplit (G : Graph) : G.dump true =
      "graph ".toList ++ (G.name ++ '\n' :: G.nodes.flatMap (G.nodeLine true)) := by
    unfold dump
    rw [List.append_assoc, List.append_assoc, List.singleton_append]
  rw [hsplit, hsplit] at h
  obtain ⟨hname, hlines⟩ :=
    Text.append_cons_inj hplain.name hplain'.name (List.append_cancel_left h)
  obtain ⟨hnodes, hedges⟩ :=
    flatMap_nodeLine_inj hplain hplain' hlaid.label hlaid'.label hlines
  rw [← hlaid.edges, ← hlaid'.edges] at hedges
  obtain ⟨name, nodes, edges⟩ := G
  obtain ⟨name', nodes', edges'⟩ := G'
  obtain rfl : name = name' := hname
  obtain rfl : nodes = nodes' := hnodes
  obtain rfl : edges = edges' := hedges
  rfl

/-! ## Reading a drawing -/

/-- The states that a graph shows: its nodes with the edges that leave them. -/
def states (G : Graph) : List RegionState :=
  G.nodes.map fun n =>
    ⟨n.state, n.accepting, (G.edgesFrom n.state).map fun e => ⟨e.label, e.target⟩⟩

/-- **The graph shows a region**: the nodes are the states in order, the edges that leave a node
are the transitions of its state in order, and there are no other edges. -/
structure Depicts (G : Graph) (g : Region) : Prop where
  nodes : List.Forall₂ (fun n s => n.state = s.id ∧ n.accepting = s.accepting ∧
    G.edgesFrom n.state = s.transitions.map fun t => ⟨s.id, t.target, t.label⟩) G.nodes g.states
  edges : G.edges = G.nodes.flatMap fun n => G.edgesFrom n.state

/-- The states of a region are told from a graph that shows it. -/
theorem Depicts.states_eq {g : Region} (h : G.Depicts g) : G.states = g.states := by
  have hsame : List.Forall₂ (fun n s => (⟨n.state, n.accepting,
      (G.edgesFrom n.state).map fun e => ⟨e.label, e.target⟩⟩ : RegionState) = s)
      G.nodes g.states := by
    refine h.nodes.imp ?_
    rintro n ⟨id, accepting, transitions⟩ ⟨hid, haccepting, hedges⟩
    rw [hedges, List.map_map, hid, haccepting]
    exact congrArg _ (List.map_id _)
  rw [states, map_eq_map_of_forall₂ (g := fun s => s) hsame]
  exact List.map_id _

end Graph

namespace Region

variable {g : Region} {s : RegionState}

/-- The edges that leave a state in a drawing are its transitions. -/
theorem edgesFrom_draw (hnodup : g.ids.Nodup) (hs : s ∈ g.states) (name : Text) :
    (g.draw name).edgesFrom s.id = s.transitions.map fun t => ⟨s.id, t.target, t.label⟩ := by
  have hown {id : StateId} (hid : id = s.id) (ts : List Transition) :
      (ts.map fun t => (⟨id, t.target, t.label⟩ : Edge)).filter (·.source = s.id) =
        ts.map fun t => ⟨id, t.target, t.label⟩ :=
    List.filter_eq_self.mpr (by simpa using fun _ _ => hid)
  have hother {qs : List RegionState} (hqs : ∀ q ∈ qs, q.id ≠ s.id) :
      (qs.flatMap fun q => q.transitions.map fun t =>
        (⟨q.id, t.target, t.label⟩ : Edge)).filter (·.source = s.id) = [] := by
    refine List.filter_eq_nil_iff.mpr fun e he => ?_
    obtain ⟨q, hq, he⟩ := List.mem_flatMap.mp he
    obtain ⟨t, -, rfl⟩ := List.mem_map.mp he
    simpa using hqs q hq
  obtain ⟨front, back, hsplit⟩ := List.append_of_mem hs
  have hdistinct := hnodup
  rw [ids, hsplit, List.map_append, List.map_cons, List.nodup_middle, List.nodup_cons,
    List.mem_append, not_or] at hdistinct
  obtain ⟨⟨hfront, hback⟩, -⟩ := hdistinct
  show g.edges.filter _ = _
  rw [edges, hsplit, List.flatMap_append, List.flatMap_cons, List.filter_append,
    List.filter_append, hown rfl, hother, hother, List.nil_append, List.append_nil]
  · rintro q hq heq
    exact hback (heq ▸ List.mem_map_of_mem hq)
  · rintro q hq heq
    exact hfront (heq ▸ List.mem_map_of_mem hq)

/-- **A drawing shows its region.** -/
theorem depicts_draw (hnodup : g.ids.Nodup) (name : Text) : (g.draw name).Depicts g where
  nodes := by
    show List.Forall₂ _ (g.states.map _) g.states
    refine List.forall₂_map_left_iff.mpr (List.forall₂_same.mpr fun s hs => ?_)
    exact ⟨rfl, rfl, edgesFrom_draw hnodup hs name⟩
  edges := by
    show g.edges = (g.states.map _).flatMap _
    rw [List.flatMap_map]
    exact List.flatMap_congr fun s hs => (edgesFrom_draw hnodup hs name).symm

theorem laid_draw (hnodup : g.ids.Nodup) (name : Text) : (g.draw name).Laid where
  label := by
    intro n hn
    obtain ⟨s, -, rfl⟩ := mem_nodes.mp hn
    rfl
  edges := (depicts_draw hnodup name).edges

end Region

namespace Automaton

variable {a : Automaton} {start : StateId}

/-- The first node that is drawn is the start. -/
theorem state_head?_nodes (a : Automaton) (start : StateId) (optimize : Bool) :
    ∀ n ∈ (a.region start optimize).nodes.head?, n.state = start := by
  intro n hn
  have hhead : (a.region start optimize).ids.head? = some n.state := by
    rw [← Region.map_state_nodes, List.head?_map, hn]
    rfl
  by_cases hstart : start < a.size
  · exact Option.some.inj (hhead.symm.trans (head?_ids_region hstart optimize))
  · have hnone : (a.region start false).ids = [] := by
      show (a.reachable start).map _ = []
      rw [reachable, if_neg hstart, List.map_nil]
    have hids := a.sublist_ids_region start optimize
    rw [hnone, List.sublist_nil] at hids
    rw [hids] at hhead
    cases hhead

/-- **A drawing and its dump lose nothing.**  The drawing of a region shows all of its states with
their transitions, in order, so that they can be told from it; its first node is the start.  And
drawings with plain names and labels are equal if their dumps are, whatever automata they are
drawn of. -/
theorem drawing_loses_nothing (a a' : Automaton) (start start' : StateId)
    (optimize optimize' : Bool) (name name' : Text) :
    let G := (a.region start optimize).draw name
    let G' := (a'.region start' optimize').draw name'
    (G.Depicts (a.region start optimize) ∧ G.states = (a.region start optimize).states ∧
      ∀ n ∈ G.nodes.head?, n.state = start) ∧
    (G.Plain → G'.Plain → G.dump true = G'.dump true → G = G') := by
  intro G G'
  have hnodup := a.nodup_ids_region start optimize
  have hdepicts := Region.depicts_draw hnodup name
  refine ⟨⟨hdepicts, hdepicts.states_eq, a.state_head?_nodes start optimize⟩, ?_⟩
  exact Graph.dump_inj (Region.laid_draw hnodup name)
    (Region.laid_draw (a'.nodup_ids_region start' optimize') name')

/-- Two automata with the same dump: what is contracted in the one is not there in the other.  One
transition leads to a state that does not exist. -/
theorem drawing_loses_nothing_of_bypass :
    let a : Automaton := ⟨[⟨[⟨.symbol ['x'], 1⟩, ⟨.rule ['r'], 0⟩], false⟩,
      ⟨[⟨.epsilon, 2⟩], false⟩, ⟨[⟨.epsilon, 7⟩], true⟩], []⟩
    let a' : Automaton := ⟨[⟨[⟨.symbol ['x'], 2⟩, ⟨.rule ['r'], 0⟩], false⟩, {},
      ⟨[⟨.epsilon, 7⟩], true⟩], []⟩
    let G := (a.region 0 true).draw ['r']
    let G' := (a'.region 0 false).draw ['r']
    a ≠ a' ∧ G.Plain ∧ G'.Plain ∧ G.dump true = G'.dump true ∧ G = G' := by
  intro a a' G G'
  have hG : G.Plain := ⟨by decide, by decide⟩
  have hG' : G'.Plain := ⟨by decide, by decide⟩
  have hdump : G.dump true = G'.dump true := by decide +kernel
  exact ⟨by decide, hG, hG', hdump,
    (drawing_loses_nothing a a' 0 0 true false ['r'] ['r']).2 hG hG' hdump⟩

end Automaton
end GrammarAtlas
