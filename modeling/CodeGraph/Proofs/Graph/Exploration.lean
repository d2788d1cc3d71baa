import CodeGraph.Graph.Order
import CodeGraph.Proofs.Graph.Levels
import Mathlib.Logic.Relation

namespace CodeGraph

/-! Depth-first search finishes a node after all that can be reached from it on ways that were open
when it was met. -/

variable {next : Nat → List Nat}

/-- Ways that avoid the nodes seen before. -/
def Leads (next : Nat → List Nat) (seen : List Nat) : Nat → Nat → Prop :=
  Relation.ReflTransGen fun a b => b ∈ next a ∧ b ∉ seen

namespace Leads

variable {seen more : List Nat} {a b c : Nat}

theorem refl : Leads next seen a a :=
  Relation.ReflTransGen.refl

theorem trans (hleads : Leads next seen a b) (hmore : Leads next seen b c) :
    Leads next seen a c :=
  Relation.ReflTransGen.trans hleads hmore

theorem tail (hleads : Leads next seen a b) (hstep : c ∈ next b) (hnew : c ∉ seen) :
    Leads next seen a c :=
  Relation.ReflTransGen.tail hleads ⟨hstep, hnew⟩

theorem step (hstep : b ∈ next a) (hnew : b ∉ seen) : Leads next seen a b :=
  refl.tail hstep hnew

theorem mono (hseen : seen ⊆ more) (hleads : Leads next more a b) : Leads next seen a b := by
  induction hleads with
  | refl => exact refl
  | tail _ hstep ih => exact ih.tail hstep.1 fun hmem => hstep.2 (hseen hmem)

/-- A way avoids a set that no way leaves, or it ends in it. -/
theorem avoids_or_mem {closed : List Nat}
    (hmore : ∀ node ∈ more, node ∈ closed ∨ node ∈ seen)
    (hclosed : ∀ a ∈ closed, ∀ b, Leads next seen a b → b ∈ closed)
    (hleads : Leads next seen a b) : Leads next more a b ∨ b ∈ closed := by
  induction hleads with
  | refl => exact .inl refl
  | @tail b c hleads hstep ih =>
      rcases ih with havoids | hmem
      · by_cases hc : c ∈ closed
        · exact .inr hc
        · refine .inl (havoids.tail hstep.1 ?_)
          intro hmem
          rcases hmore c hmem with hinside | hseen
          · exact hc hinside
          · exact hstep.2 hseen
      · exact .inr (hclosed b hmem c (step hstep.1 hstep.2))

/-- A way to a node avoids another one, or it passes there. -/
theorem avoids_or_passes (node : Nat) (hleads : Leads next seen a b) :
    Leads next (node :: seen) a b ∨ Leads next seen a node := by
  induction hleads with
  | refl => exact .inl refl
  | @tail b c hleads hstep ih =>
      rcases ih with havoids | hpasses
      · by_cases hc : c = node
        · subst hc
          exact .inr (tail hleads hstep.1 hstep.2)
        · refine .inl (havoids.tail hstep.1 ?_)
          rw [List.mem_cons, not_or]
          exact ⟨hc, hstep.2⟩
      · exact .inr hpasses

/-- A way that leaves a node goes on without it from one of the next nodes. -/
theorem eq_or_from_next (hleads : Leads next seen a b) :
    b = a ∨ ∃ start ∈ next a, start ∉ a :: seen ∧ Leads next (a :: seen) start b := by
  induction hleads with
  | refl => exact .inl rfl
  | @tail b c hleads hstep ih =>
      by_cases hc : c = a
      · exact .inl hc
      · have hnew : c ∉ a :: seen := by
          rw [List.mem_cons, not_or]
          exact ⟨hc, hstep.2⟩
        rcases ih with rfl | ⟨start, hstart, hfresh, hrest⟩
        · exact .inr ⟨c, hstep.1, hnew, refl⟩
        · exact .inr ⟨start, hstart, hfresh, hrest.tail hstep.1 hnew⟩

end Leads

/-! Places in a list -/

/-- The first node is listed, and the second is the same or listed after it. -/
def NotAfter (order : List Nat) (a b : Nat) : Prop :=
  (a = b ∧ a ∈ order) ∨ [a, b].Sublist order

namespace NotAfter

variable {order more : List Nat} {a b : Nat}

theorem of_sublist (hsublist : order.Sublist more) (h : NotAfter order a b) :
    NotAfter more a b := by
  rcases h with ⟨hsame, hmem⟩ | hpair
  · exact .inl ⟨hsame, hsublist.subset hmem⟩
  · exact .inr (hpair.trans hsublist)

theorem of_mem_cons (hmem : b ∈ a :: order) : NotAfter (a :: order) a b := by
  rcases List.mem_cons.mp hmem with rfl | hrest
  · exact .inl ⟨rfl, List.mem_cons_self⟩
  · exact .inr (List.Sublist.cons_cons a (List.singleton_sublist.mpr hrest))

theorem of_mem_append (ha : a ∈ order) (hb : b ∈ more) : NotAfter (order ++ more) a b :=
  .inr ((List.singleton_sublist.mpr ha).append (List.singleton_sublist.mpr hb))

/-- What stands at or before a node that is listed once is that node or stands in front of it. -/
theorem eq_or_mem {front back : List Nat} {node : Nat}
    (hnodup : (front ++ node :: back).Nodup) (h : NotAfter (front ++ node :: back) a node) :
    a = node ∨ a ∈ front := by
  rcases h with ⟨hsame, -⟩ | hpair
  · exact .inl hsame
  · obtain ⟨first, last, hsplit, hfirst, hlast⟩ := List.sublist_append_iff.mp hpair
    cases first with
    | nil =>
        rw [List.nil_append] at hsplit
        subst hsplit
        have hback : node ∉ back := (List.nodup_cons.mp (List.nodup_append.mp hnodup).2.1).1
        cases hlast with
        | cons _ hrest => exact absurd (hrest.subset (by simp)) hback
        | cons_cons _ hrest => exact .inl rfl
    | cons c rest =>
        obtain ⟨rfl, -⟩ := List.cons.inj hsplit
        exact .inr (hfirst.subset List.mem_cons_self)

end NotAfter

/-! What a search finds -/

/-- The nodes found from some starts, in the order of a search that went around the nodes seen
before. -/
structure Found (next : Nat → List Nat) (seen starts found : List Nat) : Prop where
  mem_iff : ∀ a, a ∈ found ↔ ∃ start ∈ starts, start ∉ seen ∧ Leads next seen start a
  nodup : found.Nodup
  /-- In front of a node that can be reached stands the node it is reached from, or another one that
  leads there and back. -/
  order : ∀ a ∈ found, ∀ b, Leads next seen a b →
    ∃ c, Leads next seen a c ∧ Leads next seen c a ∧ NotAfter found c b

namespace Found

variable {seen starts found : List Nat}

theorem closed (hfound : Found next seen starts found) {a b : Nat} (ha : a ∈ found)
    (hleads : Leads next seen a b) : b ∈ found := by
  obtain ⟨start, hstart, hnew, hway⟩ := (hfound.mem_iff a).mp ha
  exact (hfound.mem_iff b).mpr ⟨start, hstart, hnew, hway.trans hleads⟩

theorem not_seen (hfound : Found next seen starts found) {a : Nat} (ha : a ∈ found) :
    a ∉ seen := by
  obtain ⟨start, -, hnew, hway⟩ := (hfound.mem_iff a).mp ha
  cases hway with
  | refl => exact hnew
  | tail _ hstep => exact hstep.2

theorem nil (hstarts : ∀ start ∈ starts, start ∈ seen) : Found next seen starts [] where
  mem_iff := by
    intro a
    constructor
    · intro ha
      cases ha
    · rintro ⟨start, hstart, hnew, -⟩
      exact absurd (hstarts start hstart) hnew
  nodup := List.nodup_nil
  order := fun a ha => nomatch ha

theorem mem_cons_iff {node a : Nat} (hfound : Found next (node :: seen) (next node) found) :
    a ∈ node :: found ↔ Leads next seen node a := by
  have hless : seen ⊆ node :: seen := List.subset_cons_self node seen
  rw [List.mem_cons, hfound.mem_iff]
  constructor
  · rintro (rfl | ⟨start, hstart, hfresh, hway⟩)
    · exact .refl
    · exact (Leads.step hstart fun hmem => hfresh (hless hmem)).trans (hway.mono hless)
  · exact Leads.eq_or_from_next

/-- A search from a new node goes on from the next nodes and finishes with the node itself. -/
theorem cons {node : Nat} (hnew : node ∉ seen)
    (hfound : Found next (node :: seen) (next node) found) :
    Found next seen [node] (node :: found) where
  mem_iff := by
    intro a
    simp [hfound.mem_cons_iff, hnew]
  nodup := List.nodup_cons.mpr
    ⟨fun hmem => hfound.not_seen hmem List.mem_cons_self, hfound.nodup⟩
  order := by
    intro a ha b hleads
    have hway : Leads next seen node a := hfound.mem_cons_iff.mp ha
    -- A node that leads back to the first one has everything behind that one.
    have hfirst : Leads next seen a node →
        ∃ c, Leads next seen a c ∧ Leads next seen c a ∧ NotAfter (node :: found) c b :=
      fun hback => ⟨node, hback, hway,
        NotAfter.of_mem_cons (hfound.mem_cons_iff.mpr (hway.trans hleads))⟩
    rcases List.mem_cons.mp ha with rfl | hinside
    · exact hfirst .refl
    · rcases hleads.avoids_or_passes node with havoids | hback
      · obtain ⟨c, hto, hfro, hplace⟩ := hfound.order a hinside b havoids
        have hless : seen ⊆ node :: seen := List.subset_cons_self node seen
        exact ⟨c, hto.mono hless, hfro.mono hless, hplace.of_sublist (List.sublist_cons_self ..)⟩
      · exact hfirst hback

/-- A search from further starts goes around what is found already. -/
theorem append {more starts' found' : List Nat} (hfound : Found next seen starts found)
    (hmore : ∀ a, a ∈ more ↔ a ∈ found ∨ a ∈ seen) (hfound' : Found next more starts' found') :
    Found next seen (starts ++ starts') (found' ++ found) := by
  have hless : seen ⊆ more := fun a ha => (hmore a).mpr (.inr ha)
  have havoids : ∀ {a b}, Leads next seen a b → Leads next more a b ∨ b ∈ found :=
    fun hleads => hleads.avoids_or_mem (fun a => (hmore a).mp) fun a ha b => hfound.closed ha
  refine ⟨?_, ?_, ?_⟩
  · intro a
    rw [List.mem_append, hfound'.mem_iff]
    constructor
    · rintro (⟨start, hstart, hnew, hway⟩ | hold)
      · exact ⟨start, List.mem_append_right _ hstart, fun hseen => hnew (hless hseen),
          hway.mono hless⟩
      · obtain ⟨start, hstart, hnew, hway⟩ := (hfound.mem_iff a).mp hold
        exact ⟨start, List.mem_append_left _ hstart, hnew, hway⟩
    · rintro ⟨start, hstart, hnew, hway⟩
      rcases List.mem_append.mp hstart with hfirst | hlater
      · exact .inr ((hfound.mem_iff a).mpr ⟨start, hfirst, hnew, hway⟩)
      · by_cases hold : start ∈ found
        · exact .inr (hfound.closed hold hway)
        · rcases havoids hway with hway | hmem
          · exact .inl ⟨start, hlater, fun hmem => ((hmore start).mp hmem).elim hold hnew, hway⟩
          · exact .inr hmem
  · refine List.nodup_append.mpr ⟨hfound'.nodup, hfound.nodup, ?_⟩
    rintro a ha _ hb rfl
    exact hfound'.not_seen ha ((hmore a).mpr (.inl hb))
  · intro a ha b hleads
    rcases List.mem_append.mp ha with hnew | hold
    · rcases havoids hleads with hway | hmem
      · obtain ⟨c, hto, hfro, hplace⟩ := hfound'.order a hnew b hway
        exact ⟨c, hto.mono hless, hfro.mono hless, hplace.of_sublist (List.sublist_append_left ..)⟩
      · exact ⟨a, .refl, .refl, .of_mem_append hnew hmem⟩
    · obtain ⟨c, hto, hfro, hplace⟩ := hfound.order a hold b hleads
      exact ⟨c, hto, hfro, hplace.of_sublist (List.sublist_append_right ..)⟩

end Found

/-! Searches -/

/-- A search from some starts adds what it finds to what is finished and seen. -/
def Explores (next : Nat → List Nat) (starts : List Nat) (before after : Exploration) : Prop :=
  ∃ found, after.finished = found ++ before.finished ∧
    (∀ a, a ∈ after.seen ↔ a ∈ found ∨ a ∈ before.seen) ∧ Found next before.seen starts found

namespace Explores

theorem of_seen {starts : List Nat} {state : Exploration}
    (hseen : ∀ start ∈ starts, start ∈ state.seen) : Explores next starts state state :=
  ⟨[], rfl, by simp, Found.nil hseen⟩

theorem seen_subset {starts : List Nat} {before after : Exploration}
    (hexplores : Explores next starts before after) : before.seen ⊆ after.seen := by
  obtain ⟨found, -, hseen, -⟩ := hexplores
  exact fun a ha => (hseen a).mpr (.inr ha)

theorem append {starts starts' : List Nat} {first second third : Exploration}
    (hfirst : Explores next starts first second) (hsecond : Explores next starts' second third) :
    Explores next (starts ++ starts') first third := by
  obtain ⟨found, hfinished, hseen, hfound⟩ := hfirst
  obtain ⟨found', hfinished', hseen', hfound'⟩ := hsecond
  refine ⟨found' ++ found, ?_, ?_, hfound.append hseen hfound'⟩
  · rw [hfinished', hfinished, List.append_assoc]
  · intro a
    rw [hseen', hseen, List.mem_append, or_assoc]

theorem cons {node : Nat} {state inner : Exploration} (hnew : node ∉ state.seen)
    (hinner : Explores next (next node) { state with seen := node :: state.seen } inner) :
    Explores next [node] state { inner with finished := node :: inner.finished } := by
  obtain ⟨found, hfinished, hseen, hfound⟩ := hinner
  refine ⟨node :: found, ?_, ?_, hfound.cons hnew⟩
  · rw [hfinished, List.cons_append]
  · intro a
    simp only [hseen, List.mem_cons]
    tauto

end Explores

namespace Digraph

variable {size fuel : Nat}

theorem explores_foldl
    (hone : ∀ {state : Exploration} {node : Nat}, node < size →
      unseen (List.range size) state.seen ≤ fuel →
      Explores next [node] state (explore next fuel state node))
    {starts : List Nat} (hstarts : ∀ start ∈ starts, start < size) {state : Exploration}
    (hfuel : unseen (List.range size) state.seen ≤ fuel) :
    Explores next starts state (starts.foldl (explore next fuel) state) := by
  induction starts generalizing state with
  | nil => exact .of_seen (by simp)
  | cons start rest ih =>
      have hfirst := hone (hstarts start List.mem_cons_self) hfuel
      have hrest : ∀ start ∈ rest, start < size :=
        fun start hmem => hstarts start (List.mem_cons_of_mem _ hmem)
      exact hfirst.append (ih hrest ((unseen_anti hfirst.seen_subset).trans hfuel))

/-- The fuel lasts for a search that has room for all nodes that are not seen. -/
theorem explores_explore (hnext : ∀ a, ∀ b ∈ next a, b < size) {state : Exploration} {node : Nat}
    (hnode : node < size) (hfuel : unseen (List.range size) state.seen ≤ fuel) :
    Explores next [node] state (explore next fuel state node) := by
  induction fuel generalizing state node with
  | zero =>
      refine .of_seen ?_
      intro start hstart
      by_contra hnew
      obtain rfl := List.mem_singleton.mp hstart
      have hless := unseen_cons (List.mem_range.mpr hnode) hnew
      omega
  | succ fuel ih =>
      rw [explore]
      split
      · next hseen => exact .of_seen (by simpa using hseen)
      · next hnew =>
          have hnew : node ∉ state.seen := by simpa using hnew
          refine .cons hnew (explores_foldl ih (hnext node) ?_)
          have hless := unseen_cons (List.mem_range.mpr hnode) hnew
          exact Nat.lt_succ_iff.mp (hless.trans_le hfuel)

theorem found_byFinish (graph : Digraph) (hnext : ∀ a, ∀ b ∈ next a, b < graph.size) :
    Found next [] graph.nodes (graph.byFinish next) := by
  obtain ⟨found, hfinished, -, hfound⟩ : Explores next graph.nodes {}
      (graph.nodes.foldl (explore next graph.size) {}) :=
    explores_foldl (explores_explore hnext) (fun _ => List.mem_range.mp)
      ((unseen_le _ _).trans_eq List.length_range)
  rw [byFinish, hfinished, List.append_nil]
  exact hfound

end Digraph

end CodeGraph
