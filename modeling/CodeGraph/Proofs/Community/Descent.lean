import CodeGraph.Proofs.Community.Tracking
import Mathlib.Algebra.Order.Ring.Rat
import Mathlib.Data.Rat.Cast.Order

namespace CodeGraph

/-! The loop over levels ends by itself.  A visited node only ever joins a community that another
node is in, so that no visit opens a community, and the first move on a level closes one.  For this
it does not matter what the comparisons of gains come to. -/

/-! Visits with any gains -/

/-- Where a visit may leave a node, whatever its gains are: in its community, or in one next to
it. -/
def MayJoin (network : Network) (assignment : Assignment) (node target : Nat) : Prop :=
  target ∈ assignment.communityOf node :: (adjoining network assignment node).map Prod.fst

/-- What visits lead to, to any nodes in any order and with any gains: the communities, and whether
a node has moved. -/
inductive Wandered (network : Network) : Assignment × Bool → Prop
  | start : Wandered network (.singletons network, false)
  | visit {assignment : Assignment} {moved : Bool} (node target : Nat) :
      Wandered network (assignment, moved) → MayJoin network assignment node target →
      Wandered network
        (assignment.reassign network node target,
          moved || target != assignment.communityOf node)

/-- The networks of the levels with any gains, after a number of contractions. -/
inductive Descends (network : Network) : Nat → Network → Prop
  | start : Descends network 0 network
  | contract {count : Nat} {level : Network} {assignment : Assignment} :
      Descends network count level → 2 ≤ level.size → Wandered level (assignment, true) →
      Descends network (count + 1) (assignment.contract level)

/-! Communities that are left -/

section Visits

variable {network : Network} {assignment : Assignment} {node target : Nat}

theorem Assignment.length_labels_le_size (assignment : Assignment) :
    assignment.labels.length ≤ assignment.community.size := by
  have hinside : assignment.labels ⊆ assignment.community.toList :=
    fun _ hlabel => List.mem_eraseDups.mp hlabel
  exact (assignment.nodup_labels.subperm hinside).length_le

theorem Assignment.mem_labels_reassign (hlt : node < assignment.community.size) {label : Nat}
    (hlabel : label ∈ (assignment.reassign network node target).labels) :
    label = target ∨ ∃ other < assignment.community.size, other ≠ node ∧
      assignment.communityOf other = label := by
  obtain ⟨other, hother⟩ := mem_labels.mp hlabel
  obtain ⟨hin, hcommunity⟩ := mem_members.mp hother
  rw [size_community_reassign] at hin
  rw [communityOf_reassign hlt] at hcommunity
  split at hcommunity
  · exact .inl hcommunity.symm
  · next hne => exact .inr ⟨other, hin, fun hsame => hne hsame.symm, hcommunity⟩

theorem Assignment.labels_reassign_subset (hlt : node < assignment.community.size)
    (htarget : target ∈ assignment.labels) :
    (assignment.reassign network node target).labels ⊆ assignment.labels := by
  intro label hlabel
  rcases mem_labels_reassign hlt hlabel with rfl | ⟨other, hin, -, rfl⟩
  · exact htarget
  · exact communityOf_mem_labels hin

/-- A community that only one node was in is closed when the node leaves. -/
theorem Assignment.not_mem_labels_reassign (hlt : node < assignment.community.size)
    (halone : ∀ other < assignment.community.size,
      assignment.communityOf other = assignment.communityOf node → other = node)
    (hmoves : target ≠ assignment.communityOf node) :
    assignment.communityOf node ∉ (assignment.reassign network node target).labels := by
  intro hlabel
  rcases mem_labels_reassign hlt hlabel with hsame | ⟨other, hin, hne, hsame⟩
  · exact hmoves hsame.symm
  · exact hne (halone other hin hsame)

theorem MayJoin.eq_own (hjoin : MayJoin network assignment node target)
    (hle : network.size ≤ node) : target = assignment.communityOf node := by
  rw [MayJoin, adjoining, Network.neighbours_of_size_le hle] at hjoin
  exact List.mem_singleton.mp hjoin

theorem MayJoin.lt_of_moves (hjoin : MayJoin network assignment node target)
    (hmoves : target ≠ assignment.communityOf node) : node < network.size :=
  Nat.lt_of_not_le fun hle => hmoves (hjoin.eq_own hle)

section

variable (hbounded : network.Bounded) (hsize : assignment.community.size = network.size)
variable (hjoin : MayJoin network assignment node target)

include hbounded hsize hjoin

theorem MayJoin.mem_labels (hlt : node < network.size) : target ∈ assignment.labels := by
  rcases List.mem_cons.mp hjoin with hstay | hmove
  · rw [hstay]
    exact Assignment.communityOf_mem_labels (hsize ▸ hlt)
  · obtain ⟨entry, hentry, hcommunity⟩ := mem_map_fst_adjoining network assignment node hmove
    rw [← hcommunity]
    exact Assignment.communityOf_mem_labels (hsize ▸ hbounded node entry hentry)

theorem MayJoin.length_labels_le :
    (assignment.reassign network node target).labels.length ≤ assignment.labels.length := by
  by_cases hlt : node < network.size
  · have hinside : (assignment.reassign network node target).labels ⊆ assignment.labels :=
      Assignment.labels_reassign_subset (hsize ▸ hlt) (hjoin.mem_labels hbounded hsize hlt)
    exact ((Assignment.nodup_labels _).subperm hinside).length_le
  · rw [hjoin.eq_own (Nat.le_of_not_lt hlt), Assignment.labels, Assignment.labels,
      Assignment.community_reassign_own]

theorem MayJoin.length_labels_lt
    (halone : ∀ other < assignment.community.size,
      assignment.communityOf other = assignment.communityOf node → other = node)
    (hmoves : target ≠ assignment.communityOf node) :
    (assignment.reassign network node target).labels.length < assignment.labels.length := by
  have hlt : node < network.size := hjoin.lt_of_moves hmoves
  have hnode : node < assignment.community.size := hsize ▸ hlt
  have hnodup : (assignment.communityOf node ::
      (assignment.reassign network node target).labels).Nodup :=
    List.nodup_cons.mpr ⟨Assignment.not_mem_labels_reassign hnode halone hmoves,
      Assignment.nodup_labels _⟩
  have hinside : assignment.communityOf node ::
      (assignment.reassign network node target).labels ⊆ assignment.labels :=
    List.cons_subset.mpr ⟨Assignment.communityOf_mem_labels hnode,
      Assignment.labels_reassign_subset hnode (hjoin.mem_labels hbounded hsize hlt)⟩
  exact (hnodup.subperm hinside).length_le

end

end Visits

/-- Until a node moves every node is by itself; from then on there are fewer communities than
nodes. -/
structure Shrinks (network : Network) (state : Assignment × Bool) : Prop where
  size_eq : state.1.community.size = network.size
  community_eq : state.2 = false → state.1.community = (Assignment.singletons network).community
  length_lt : state.2 = true → state.1.labels.length < network.size

theorem Shrinks.start (network : Network) : Shrinks network (.singletons network, false) where
  size_eq := Assignment.size_community_singletons network
  community_eq := fun _ => rfl
  length_lt := by
    intro hmoved
    cases hmoved

theorem Shrinks.communityOf_eq {network : Network} {assignment : Assignment}
    (hshrinks : Shrinks network (assignment, false)) {node : Nat} (hlt : node < network.size) :
    assignment.communityOf node = node := by
  rw [Assignment.communityOf, hshrinks.community_eq rfl]
  exact Assignment.communityOf_singletons hlt

theorem Shrinks.visit {network : Network} {assignment : Assignment} {moved : Bool}
    {node target : Nat} (hshrinks : Shrinks network (assignment, moved))
    (hbounded : network.Bounded) (hjoin : MayJoin network assignment node target) :
    Shrinks network
      (assignment.reassign network node target,
        moved || target != assignment.communityOf node) where
  size_eq := (Assignment.size_community_reassign ..).trans hshrinks.size_eq
  community_eq := by
    intro hstill
    obtain ⟨hbefore, hstay⟩ := Bool.or_eq_false_iff.mp hstill
    rw [bne_eq_false_iff_eq.mp hstay, ← hshrinks.community_eq hbefore]
    exact Assignment.community_reassign_own network assignment node
  length_lt := by
    intro hmoved
    cases moved with
    | true =>
        exact (hjoin.length_labels_le hbounded hshrinks.size_eq).trans_lt
          (hshrinks.length_lt rfl)
    | false =>
        -- the first move of the level closes the community of the node
        have hmoves : target ≠ assignment.communityOf node := bne_iff_ne.mp hmoved
        have hlt : node < network.size := hjoin.lt_of_moves hmoves
        have halone : ∀ other < assignment.community.size,
            assignment.communityOf other = assignment.communityOf node → other = node := by
          intro other hother hsame
          rwa [hshrinks.communityOf_eq (hshrinks.size_eq ▸ hother),
            hshrinks.communityOf_eq hlt] at hsame
        calc (assignment.reassign network node target).labels.length
            < assignment.labels.length :=
              hjoin.length_labels_lt hbounded hshrinks.size_eq halone hmoves
          _ ≤ assignment.community.size := assignment.length_labels_le_size
          _ = network.size := hshrinks.size_eq

theorem Wandered.shrinks {network : Network} (hbounded : network.Bounded)
    {state : Assignment × Bool} (hwandered : Wandered network state) : Shrinks network state := by
  induction hwandered with
  | start => exact .start network
  | visit node target _ hjoin ih => exact ih.visit hbounded hjoin

/-- Each contraction takes away a node, and is made only where there are two. -/
theorem Descends.bounded_and_le {network level : Network} (hbounded : network.Bounded) {count : Nat}
    (hdescends : Descends network count level) :
    level.Bounded ∧ count + level.size ≤ network.size ∧ count ≤ network.size - 1 := by
  induction hdescends with
  | start => exact ⟨hbounded, (Nat.zero_add _).le, Nat.zero_le _⟩
  | @contract count level assignment _ hseveral hwandered ih =>
      obtain ⟨hlevel, hsum, -⟩ := ih
      have hshrinks := hwandered.shrinks hlevel
      have hlength : assignment.labels.length < level.size := hshrinks.length_lt rfl
      refine ⟨Assignment.bounded_contract hshrinks.size_eq hlevel, ?_, ?_⟩
      · rw [Assignment.size_contract]
        omega
      · omega

/-! The visits of a level -/

section Runs

variable {α σ : Type} [Sub α] [Mul α] [Div α] [NatCast α] [LT α] [DecidableLT α] [BEq α]
variable (network : Network) (resolution : α) (total : Nat)

theorem wandered_foldl_visit (nodes : List Nat) {state : Assignment × Bool}
    (hwandered : Wandered network state) :
    Wandered network (nodes.foldl (visit network resolution total) state) := by
  induction nodes generalizing state with
  | nil => exact hwandered
  | cons node rest ih =>
      obtain ⟨assignment, moved⟩ := state
      rw [List.foldl_cons, visit_eq_reassign]
      exact ih (hwandered.visit node _ (targetOf_mem network resolution total assignment node))

theorem foldl_visit_moved (nodes : List Nat) (assignment : Assignment) (moved : Bool) :
    nodes.foldl (visit network resolution total) (assignment, moved) =
      ((nodes.foldl (visit network resolution total) (assignment, false)).1,
        moved || (nodes.foldl (visit network resolution total) (assignment, false)).2) := by
  induction nodes generalizing assignment moved with
  | nil => simp
  | cons node rest ih =>
      rw [List.foldl_cons, List.foldl_cons, visit_eq_reassign, visit_eq_reassign, ih,
        ih _ (false || _), Bool.false_or, Bool.or_assoc]

/-- To settle is to visit all nodes in their order, some number of times. -/
theorem exists_settleUpTo_eq (order : List Nat) (rounds : Nat) (assignment : Assignment)
    (moved : Bool) :
    ∃ passes ≤ rounds, settleUpTo network resolution total order rounds (assignment, moved) =
      (List.replicate passes order).flatten.foldl (visit network resolution total)
        (assignment, moved) := by
  induction rounds generalizing assignment moved with
  | zero => exact ⟨0, Nat.le_refl 0, rfl⟩
  | succ rounds ih =>
      have hpass := foldl_visit_moved network resolution total order assignment moved
      rw [settleUpTo]
      cases hstate : order.foldl (visit network resolution total) (assignment, false) with
      | mk next stirred =>
          rw [hstate] at hpass
          cases stirred with
          | false =>
              refine ⟨1, Nat.succ_le_succ (Nat.zero_le rounds), ?_⟩
              rw [List.replicate_one, List.flatten_singleton, hpass, Bool.or_false]
          | true =>
              obtain ⟨passes, hle, hpasses⟩ := ih next true
              refine ⟨passes + 1, Nat.succ_le_succ hle, ?_⟩
              rw [List.replicate_succ, List.flatten_cons, List.foldl_append, hpass, Bool.or_true]
              exact hpasses

theorem wandered_settle (order : List Nat) :
    Wandered network (settle network resolution total order) := by
  obtain ⟨passes, -, hpasses⟩ := exists_settleUpTo_eq network resolution total order roundLimit
    (.singletons network) false
  rw [settle, hpasses]
  exact wandered_foldl_visit network resolution total _ .start

end Runs

/-! The loop over levels -/

/-- What the loop works on: where the orders of visits come from, the network of a level, and the
groups of original nodes that its nodes stand for. -/
structure Stage (σ : Type) where
  source : σ
  network : Network
  groups : List (List Nat)

/-- Why the loop ends: a level has fewer than two nodes, no node moved on it, or it has as many
communities as nodes. -/
inductive Ending where
  | small
  | settled
  | unchanged

/-- What a level comes to. -/
inductive Turn (σ : Type) where
  | stop (ending : Ending)
  | contract (next : Stage σ)

namespace Stage

variable {α σ : Type} [Sub α] [Mul α] [Div α] [NatCast α] [LT α] [DecidableLT α] [BEq α]
variable (draw : σ → Nat → List Nat × σ) (resolution : α) (total : Nat)

def order (stage : Stage σ) : List Nat :=
  (draw stage.source stage.network.size).1

def settled (stage : Stage σ) : Assignment × Bool :=
  settle stage.network resolution total (stage.order draw)

def contracted (stage : Stage σ) : Stage σ :=
  let assignment := (stage.settled draw resolution total).1
  { source := (draw stage.source stage.network.size).2
    network := assignment.contract stage.network
    groups := assignment.merge stage.groups }

def turn (stage : Stage σ) : Turn σ :=
  let state := stage.settled draw resolution total
  if stage.network.size < 2 then .stop .small
  else if state.2 = false then .stop .settled
  else if state.1.labels.length = stage.network.size then .stop .unchanged
  else .contract (stage.contracted draw resolution total)

/-- The loop comes from one stage to another by a number of contractions. -/
inductive Leads (first : Stage σ) : Nat → Stage σ → Prop
  | refl : Leads first 0 first
  | contract {count : Nat} {stage next : Stage σ} :
      Leads first count stage → stage.turn draw resolution total = .contract next →
      Leads first (count + 1) next

def mergedUpTo (fuel : Nat) (stage : Stage σ) : List (List Nat) :=
  mergeUpTo draw resolution total fuel stage.source stage.network stage.groups

theorem mergedUpTo_succ (fuel : Nat) (stage : Stage σ) :
    stage.mergedUpTo draw resolution total (fuel + 1) =
      let state := stage.settled draw resolution total
      if stage.network.size < 2 then stage.groups
      else if state.2 = false then stage.groups
      else if state.1.labels.length = stage.network.size then stage.groups
      else (stage.contracted draw resolution total).mergedUpTo draw resolution total fuel := by
  cases hstate : stage.settled draw resolution total with
  | mk assignment moved =>
      rw [settled, order] at hstate
      rw [mergedUpTo, mergeUpTo, contracted, settled, order]
      simp only [hstate]
      cases moved <;> rfl

variable {draw resolution total} {stage : Stage σ}

theorem mergedUpTo_of_stop {ending : Ending}
    (hturn : stage.turn draw resolution total = .stop ending) (fuel : Nat) :
    stage.mergedUpTo draw resolution total fuel = stage.groups := by
  cases fuel with
  | zero => rfl
  | succ fuel =>
      rw [mergedUpTo_succ]
      grind [turn]

theorem turn_eq_contract {next : Stage σ}
    (hturn : stage.turn draw resolution total = .contract next) :
    2 ≤ stage.network.size ∧ (stage.settled draw resolution total).2 = true ∧
      (stage.settled draw resolution total).1.labels.length ≠ stage.network.size ∧
      next = stage.contracted draw resolution total := by
  grind [turn]

theorem turn_eq_unchanged (hturn : stage.turn draw resolution total = .stop .unchanged) :
    (stage.settled draw resolution total).2 = true ∧
      (stage.settled draw resolution total).1.labels.length = stage.network.size := by
  grind [turn]

theorem mergedUpTo_of_contract {next : Stage σ}
    (hturn : stage.turn draw resolution total = .contract next) (fuel : Nat) :
    stage.mergedUpTo draw resolution total (fuel + 1) =
      next.mergedUpTo draw resolution total fuel := by
  obtain ⟨hseveral, hmoved, hfewer, rfl⟩ := turn_eq_contract hturn
  rw [mergedUpTo_succ]
  dsimp only
  rw [if_neg (Nat.not_lt_of_le hseveral), if_neg (Bool.not_eq_false _ ▸ hmoved), if_neg hfewer]

theorem wandered_settled (stage : Stage σ) :
    Wandered stage.network (stage.settled draw resolution total) :=
  wandered_settle stage.network resolution total (stage.order draw)

theorem length_labels_settled_lt (hbounded : stage.network.Bounded)
    (hmoved : (stage.settled draw resolution total).2 = true) :
    (stage.settled draw resolution total).1.labels.length < stage.network.size :=
  ((wandered_settled stage).shrinks hbounded).length_lt hmoved

theorem turn_ne_unchanged (hbounded : stage.network.Bounded) :
    stage.turn draw resolution total ≠ .stop .unchanged := by
  intro hturn
  obtain ⟨hmoved, hsame⟩ := turn_eq_unchanged hturn
  exact (length_labels_settled_lt hbounded hmoved).ne hsame

namespace Leads

variable {first : Stage σ} {count : Nat}

theorem descends (hleads : first.Leads draw resolution total count stage) :
    Descends first.network count stage.network := by
  induction hleads with
  | refl => exact .start
  | @contract count stage next _ hturn ih =>
      obtain ⟨hseveral, hmoved, -, rfl⟩ := turn_eq_contract hturn
      have hwandered : Wandered stage.network ((stage.settled draw resolution total).1, true) :=
        hmoved ▸ wandered_settled stage
      exact ih.contract hseveral hwandered

theorem mergedUpTo_eq (hleads : first.Leads draw resolution total count stage) (fuel : Nat) :
    first.mergedUpTo draw resolution total (fuel + count) =
      stage.mergedUpTo draw resolution total fuel := by
  induction hleads generalizing fuel with
  | refl => rfl
  | @contract count stage next _ hturn ih =>
      rw [Nat.add_comm count, ← Nat.add_assoc, ih (fuel + 1), mergedUpTo_of_contract hturn]

theorem exists_stop (hbounded : first.network.Bounded)
    (hleads : first.Leads draw resolution total count stage) :
    ∃ count last ending, first.Leads draw resolution total count last ∧
      last.turn draw resolution total = .stop ending := by
  -- on the size of the level, which every contraction makes smaller
  induction hsize : stage.network.size using Nat.strong_induction_on generalizing count stage with
  | _ size ih =>
      cases hturn : stage.turn draw resolution total with
      | stop ending => exact ⟨count, stage, ending, hleads, hturn⟩
      | contract next =>
          obtain ⟨-, hmoved, -, hnext⟩ := turn_eq_contract hturn
          have hlt := length_labels_settled_lt (hleads.descends.bounded_and_le hbounded).1 hmoved
          have hsmaller : next.network.size < size := by
            rw [hnext, contracted, Assignment.size_contract, ← hsize]
            exact hlt
          exact ih _ hsmaller (hleads.contract hturn) rfl

end Leads

end Stage

/-- On every level of a network whose neighbours are nodes, and whatever the comparisons of gains
come to, no visit opens a community, and once a node has moved there are fewer communities than
nodes.  So the loop over levels never finds as many, and ends after fewer contractions than there
were nodes at first. -/
theorem Network.levels_shrink {α σ : Type} [Sub α] [Mul α] [Div α] [NatCast α] [LT α]
    [DecidableLT α] [BEq α] (network : Network) (hbounded : network.Bounded)
    (draw : σ → Nat → List Nat × σ) (source : σ) (resolution : α) (total : Nat)
    (groups : List (List Nat)) :
    let first : Stage σ := { source, network, groups }
    (∀ count level, Descends network count level →
      count ≤ network.size - 1 ∧
      ∀ assignment moved, Wandered level (assignment, moved) →
        (moved = true → assignment.labels.length < level.size) ∧
        ∀ node target, MayJoin level assignment node target →
          (assignment.reassign level node target).labels.length ≤ assignment.labels.length) ∧
    -- the loop descends to such levels, and its visits are such visits
    (∀ count stage, first.Leads draw resolution total count stage →
      let order := (draw stage.source stage.network.size).1
      let visits (nodes : List Nat) := nodes.foldl (visit stage.network resolution total)
        (.singletons stage.network, false)
      let settled := settle stage.network resolution total order
      Descends network count stage.network ∧ (∀ nodes, Wandered stage.network (visits nodes)) ∧
      (∃ passes ≤ roundLimit, settled = visits (List.replicate passes order).flatten) ∧
      (settled.2 = true → settled.1.labels.length < stage.network.size) ∧
      stage.turn draw resolution total ≠ .stop .unchanged) ∧
    -- it ends, however many levels it may go through
    ∃ count ≤ network.size - 1, ∃ last ending, first.Leads draw resolution total count last ∧
      last.turn draw resolution total = .stop ending ∧
      ∀ fuel, network.size - 1 ≤ fuel →
        mergeUpTo draw resolution total fuel source network groups = last.groups := by
  intro first
  refine ⟨?_, ?_, ?_⟩
  · intro count level hdescends
    obtain ⟨hlevel, -, hcount⟩ := hdescends.bounded_and_le hbounded
    refine ⟨hcount, ?_⟩
    intro assignment moved hwandered
    have hshrinks := hwandered.shrinks hlevel
    exact ⟨hshrinks.length_lt,
      fun node target hjoin => hjoin.length_labels_le hlevel hshrinks.size_eq⟩
  · intro count stage hleads order visits settled
    have hlevel := (hleads.descends.bounded_and_le hbounded).1
    refine ⟨hleads.descends, ?_, ?_, Stage.length_labels_settled_lt hlevel,
      Stage.turn_ne_unchanged hlevel⟩
    · intro nodes
      exact wandered_foldl_visit stage.network resolution total nodes .start
    · exact exists_settleUpTo_eq stage.network resolution total order roundLimit _ false
  · have hstart : first.Leads draw resolution total 0 first := .refl
    obtain ⟨count, last, ending, hleads, hturn⟩ := hstart.exists_stop hbounded
    obtain ⟨-, -, hcount⟩ := hleads.descends.bounded_and_le hbounded
    refine ⟨count, hcount, last, ending, hleads, hturn, ?_⟩
    intro fuel hfuel
    have hmerged := hleads.mergedUpTo_eq (fuel - count)
    rw [Nat.sub_add_cancel (hcount.trans hfuel), Stage.mergedUpTo_of_stop hturn] at hmerged
    exact hmerged

theorem Network.levels_shrink_pair :
    let pair : Network := #[[(1, 1)], [(0, 1)]]
    let draw := fun (_ : Unit) (size : Nat) => (List.range size, ())
    let first : Stage Unit := { source := (), network := pair, groups := [[0], [1]] }
    let settled := settle pair (1 : ℚ) 2 [0, 1]
    pair.Bounded ∧ settled.2 = true ∧ settled.1.labels.length < 2 ∧
      ∃ count ≤ 1, ∃ last ending, first.Leads draw (1 : ℚ) 2 count last ∧
        last.turn draw (1 : ℚ) 2 = .stop ending ∧
        mergeUpTo draw (1 : ℚ) 2 1 () pair [[0], [1]] = last.groups := by
  intro pair draw first settled
  have hbounded : pair.Bounded := by decide
  have hmoved : settled.2 = true := by decide +kernel
  obtain ⟨-, hlevels, count, hcount, last, ending, hleads, hturn, hmerged⟩ :=
    levels_shrink pair hbounded draw () (1 : ℚ) 2 [[0], [1]]
  obtain ⟨-, -, -, hfewer, -⟩ := hlevels 0 first .refl
  exact ⟨hbounded, hmoved, hfewer hmoved, count, hcount, last, ending, hleads, hturn,
    hmerged 1 (Nat.le_refl 1)⟩

end CodeGraph
