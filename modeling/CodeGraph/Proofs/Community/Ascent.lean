import CodeGraph.Proofs.Community.Gain
import Mathlib.Algebra.Order.BigOperators.Group.List

namespace CodeGraph

/-! Clusters have at least the modularity of single nodes.  A run is a path of visits, on all
levels, from the single nodes to the clusters.  Each visit raises the modularity by its gain. -/

/-- A visit to a node on some level.  `groups` are the original nodes that each node of the level
stands for. -/
structure Visit where
  network : Network
  groups : List (List Nat)
  assignment : Assignment
  node : Nat

section Runs

variable {α σ : Type} [Sub α] [Mul α] [Div α] [NatCast α] [LT α] [DecidableLT α] [BEq α]

namespace Visit

variable (resolution : α) (total : Nat) (visited : Visit)

def result : Assignment × Bool :=
  visit visited.network resolution total (visited.assignment, false) visited.node

/-- The groups of original nodes before the visit. -/
def before : List (List Nat) :=
  visited.assignment.merge visited.groups

def after : List (List Nat) :=
  (visited.result resolution total).1.merge visited.groups

def moves : Bool :=
  (visited.result resolution total).2

/-- The greatest gain that the visit found. -/
def gain : α :=
  (moveOf visited.network resolution total visited.assignment visited.node).2

/-- Each visit starts from the groups that the one before it left. -/
inductive Path (resolution : α) (total : Nat) :
    List (List Nat) → List Visit → List (List Nat) → Prop
  | nil (groups : List (List Nat)) : Path resolution total groups [] groups
  | cons (visited : Visit) {rest : List Visit} {last : List (List Nat)} :
      Path resolution total (visited.after resolution total) rest last →
      Path resolution total visited.before (visited :: rest) last

end Visit

/-! All visits of a run -/

def roundVisits (network : Network) (groups : List (List Nat)) (resolution : α) (total : Nat) :
    List Nat → Assignment → List Visit
  | [], _ => []
  | node :: rest, assignment =>
      { network, groups, assignment, node } ::
        roundVisits network groups resolution total rest
          (visit network resolution total (assignment, false) node).1

def settleVisits (network : Network) (groups : List (List Nat)) (resolution : α) (total : Nat)
    (order : List Nat) : Nat → Assignment → List Visit
  | 0, _ => []
  | rounds + 1, assignment =>
      roundVisits network groups resolution total order assignment ++
        match order.foldl (visit network resolution total) (assignment, false) with
        | (assignment, true) =>
            settleVisits network groups resolution total order rounds assignment
        | (_, false) => []

def mergeVisits (draw : σ → Nat → List Nat × σ) (resolution : α) (total : Nat) :
    Nat → σ → Network → List (List Nat) → List Visit
  | 0, _, _, _ => []
  | fuel + 1, source, network, groups =>
      if network.size < 2 then []
      else
        let (order, source) := draw source network.size
        settleVisits network groups resolution total order roundLimit (.singletons network) ++
          match settle network resolution total order with
          | (_, false) => []
          | (assignment, true) =>
              if assignment.labels.length = network.size then []
              else
                mergeVisits draw resolution total fuel source (assignment.contract network)
                  (assignment.merge groups)

def Network.visits (draw : σ → Nat → List Nat × σ) (source : σ) (resolution : α)
    (network : Network) : List Visit :=
  if network.total = 0 then []
  else
    mergeVisits draw resolution network.total network.size source network
      (singletonGroups network.size)

/-! Paths -/

variable {resolution : α} {total : Nat}

theorem Visit.Path.append {first middle last : List (List Nat)} {visits others : List Visit}
    (hvisits : Path resolution total first visits middle)
    (hothers : Path resolution total middle others last) :
    Path resolution total first (visits ++ others) last := by
  induction hvisits with
  | nil groups => exact hothers
  | cons visited _ ih => exact .cons visited (ih hothers)

theorem Assignment.merge_congr {assignment other : Assignment}
    (hsame : assignment.community = other.community) (groups : List (List Nat)) :
    assignment.merge groups = other.merge groups := by
  simp only [merge, labels, members, communityOf, hsame]

theorem Visit.after_of_not_moves {visited : Visit}
    (hstill : visited.moves resolution total = false) :
    visited.after resolution total = visited.before := by
  rw [moves, result, visit_eq_reassign, Bool.false_or, bne_eq_false_iff_eq] at hstill
  rw [after, before, result, visit_eq_reassign, hstill]
  exact Assignment.merge_congr (Assignment.community_reassign_own _ _ _) _

theorem Visit.Path.eq_of_not_moves {first last : List (List Nat)} {visits : List Visit}
    (hpath : Path resolution total first visits last)
    (hstill : visits.any (Visit.moves resolution total) = false) : last = first := by
  induction hpath with
  | nil groups => rfl
  | cons visited _ ih =>
      rw [List.any_cons, Bool.or_eq_false_iff] at hstill
      rw [ih hstill.2, after_of_not_moves hstill.1]

section Level

variable (network : Network) (groups : List (List Nat)) (resolution : α) (total : Nat)

/-- The visits lead from one state of a level to another, and tell whether a node moved. -/
structure Records (visits : List Visit) (start stop : Assignment × Bool) : Prop where
  path : Visit.Path resolution total (start.1.merge groups) visits (stop.1.merge groups)
  moved_eq : stop.2 = (start.2 || visits.any (Visit.moves resolution total))

theorem records_roundVisits (order : List Nat) (assignment : Assignment) (moved : Bool) :
    Records groups resolution total (roundVisits network groups resolution total order assignment)
      (assignment, moved) (order.foldl (visit network resolution total) (assignment, moved)) := by
  induction order generalizing assignment moved with
  | nil => exact ⟨.nil _, (Bool.or_false moved).symm⟩
  | cons node rest ih =>
      have hrest := ih (visit network resolution total (assignment, moved) node).1
        (visit network resolution total (assignment, moved) node).2
      refine ⟨.cons ⟨network, groups, assignment, node⟩ hrest.path, ?_⟩
      rw [List.foldl_cons, hrest.moved_eq, roundVisits, List.any_cons, ← Bool.or_assoc]
      rfl

theorem records_settleVisits (order : List Nat) (rounds : Nat) (assignment : Assignment)
    (moved : Bool) :
    Records groups resolution total
      (settleVisits network groups resolution total order rounds assignment) (assignment, moved)
      (settleUpTo network resolution total order rounds (assignment, moved)) := by
  induction rounds generalizing assignment moved with
  | zero => exact ⟨.nil _, (Bool.or_false moved).symm⟩
  | succ rounds ih =>
      have hround := records_roundVisits network groups resolution total order assignment false
      rw [settleVisits, settleUpTo]
      cases hstate : order.foldl (visit network resolution total) (assignment, false) with
      | mk next stirred =>
          rw [hstate] at hround
          have hany := hround.moved_eq
          rw [Bool.false_or] at hany
          cases stirred with
          | false =>
              rw [List.append_nil]
              exact ⟨hround.path, by rw [← hany, Bool.or_false]⟩
          | true =>
              have hrest := ih next true
              refine ⟨hround.path.append hrest.path, ?_⟩
              rw [hrest.moved_eq, List.any_append, ← hany, Bool.true_or, Bool.or_true]

theorem moved_settle (order : List Nat) :
    (settle network resolution total order).2 =
      (settleVisits network groups resolution total order roundLimit (.singletons network)).any
        (Visit.moves resolution total) :=
  (records_settleVisits network groups resolution total order roundLimit (.singletons network)
    false).moved_eq

section

variable (keeps : Assignment → Prop)
variable (hvisit : ∀ assignment moved node, keeps assignment →
  keeps (visit network resolution total (assignment, moved) node).1)

include hvisit

theorem mem_roundVisits {order : List Nat} {assignment : Assignment} {visited : Visit}
    (hkeeps : keeps assignment)
    (hmem : visited ∈ roundVisits network groups resolution total order assignment) :
    visited.network = network ∧ visited.groups = groups ∧ keeps visited.assignment := by
  induction order generalizing assignment with
  | nil => cases hmem
  | cons node rest ih =>
      rcases List.mem_cons.mp hmem with rfl | hrest
      · exact ⟨rfl, rfl, hkeeps⟩
      · exact ih (hvisit assignment false node hkeeps) hrest

theorem mem_settleVisits {order : List Nat} {rounds : Nat} {assignment : Assignment}
    {visited : Visit} (hkeeps : keeps assignment)
    (hmem : visited ∈ settleVisits network groups resolution total order rounds assignment) :
    visited.network = network ∧ visited.groups = groups ∧ keeps visited.assignment := by
  induction rounds generalizing assignment with
  | zero => cases hmem
  | succ rounds ih =>
      rw [settleVisits, List.mem_append] at hmem
      rcases hmem with hround | hlater
      · exact mem_roundVisits network groups resolution total keeps hvisit hkeeps hround
      · have hnext := foldl_visit_induction keeps hvisit order false hkeeps
        split at hlater
        · next next hmoved =>
            rw [hmoved] at hnext
            exact ih hnext hlater
        · cases hlater

end

end Level

end Runs

/-! Exact arithmetic -/

/-- The visit is made on a level of the original network, with sums that are right. -/
structure Visit.Valid (original : Network) (visited : Visit) : Prop where
  level : Level original visited.network visited.groups
  tracks : Tracks visited.network visited.assignment

namespace Visit

variable {original : Network} (resolution : ℚ)

theorem gain_nonneg (total : Nat) (visited : Visit) : 0 ≤ visited.gain resolution total :=
  snd_moveOf_nonneg _ _ _ _ _

variable {visited : Visit} (hvalid : visited.Valid original)

include hvalid

theorem Valid.moves_iff :
    visited.moves resolution original.total ↔ 0 < visited.gain resolution original.total := by
  have hmoves := targetOf_ne_iff resolution hvalid.level.undirected hvalid.tracks visited.node
  rw [hvalid.level.total_eq] at hmoves
  rw [gain, ← hmoves, moves, result, visit_eq_reassign, Bool.false_or, bne_iff_ne]

theorem Valid.tracks_result (total : Nat) :
    Tracks visited.network (visited.result resolution total).1 :=
  hvalid.tracks.visit hvalid.level.undirected.bounded resolution total false visited.node

/-- A visit raises the modularity by its gain. -/
theorem Valid.modularity_after :
    original.modularity resolution (visited.after resolution original.total) =
      original.modularity resolution visited.before +
        visited.gain resolution original.total / ((original.total : ℚ) / 2) := by
  have hvisit := modularity_visit resolution hvalid.level.undirected hvalid.tracks visited.node
  rw [hvalid.level.total_eq] at hvisit
  have hafter := hvalid.tracks_result resolution original.total
  rw [after, before, hvalid.level.modularity_merge hafter.size_eq,
    hvalid.level.modularity_merge hvalid.tracks.size_eq]
  exact hvisit

theorem Valid.partition_before : Partition visited.before original.size :=
  hvalid.level.partition.merge (hvalid.level.length_eq.trans hvalid.tracks.size_eq.symm)

theorem Valid.partition_after :
    Partition (visited.after resolution original.total) original.size := by
  have hafter := hvalid.tracks_result resolution original.total
  exact hvalid.level.partition.merge (hvalid.level.length_eq.trans hafter.size_eq.symm)

end Visit

/-- A path of visits on levels of the original network. -/
structure Ascent (original : Network) (resolution : ℚ) (first : List (List Nat))
    (visits : List Visit) (last : List (List Nat)) : Prop where
  path : Visit.Path resolution original.total first visits last
  valid : ∀ visited ∈ visits, visited.Valid original

namespace Ascent

variable {original : Network} {resolution : ℚ} {first last : List (List Nat)}
variable {visits : List Visit}

theorem nil (groups : List (List Nat)) : Ascent original resolution groups [] groups :=
  ⟨.nil groups, fun _ hmem => nomatch hmem⟩

theorem gains_nonneg :
    ∀ gain ∈ visits.map (Visit.gain resolution original.total), 0 ≤ gain := by
  intro gain hgain
  obtain ⟨visited, -, rfl⟩ := List.mem_map.mp hgain
  exact visited.gain_nonneg resolution original.total

variable (hascent : Ascent original resolution first visits last)

include hascent

theorem append {others : List Visit} {final : List (List Nat)}
    (hothers : Ascent original resolution last others final) :
    Ascent original resolution first (visits ++ others) final where
  path := hascent.path.append hothers.path
  valid := by
    intro visited hmem
    rcases List.mem_append.mp hmem with hfirst | hlater
    · exact hascent.valid visited hfirst
    · exact hothers.valid visited hlater

/-- The gains of all visits add up. -/
theorem modularity_eq :
    original.modularity resolution last =
      original.modularity resolution first +
        (visits.map (Visit.gain resolution original.total)).sum / ((original.total : ℚ) / 2) := by
  obtain ⟨hpath, hvalid⟩ := hascent
  induction hpath with
  | nil groups => simp
  | cons visited _ ih =>
      have hrest := ih fun other hother => hvalid other (List.mem_cons_of_mem _ hother)
      have hfirst := (hvalid visited List.mem_cons_self).modularity_after resolution
      rw [hrest, hfirst, List.map_cons, List.sum_cons]
      ring

theorem modularity_le :
    original.modularity resolution first ≤ original.modularity resolution last := by
  rw [hascent.modularity_eq, le_add_iff_nonneg_right]
  exact div_nonneg (List.sum_nonneg gains_nonneg) (div_nonneg (Nat.cast_nonneg _) zero_le_two)

theorem modularity_lt (htotal : original.total ≠ 0)
    (hmoves : ∃ visited ∈ visits, visited.moves resolution original.total) :
    original.modularity resolution first < original.modularity resolution last := by
  obtain ⟨visited, hmem, hmoved⟩ := hmoves
  have hgain := ((hascent.valid visited hmem).moves_iff resolution).mp hmoved
  have hsum : visited.gain resolution original.total ≤
      (visits.map (Visit.gain resolution original.total)).sum :=
    List.single_le_sum gains_nonneg _ (List.mem_map_of_mem hmem)
  have hweight : (0 : ℚ) < original.total := by exact_mod_cast Nat.pos_of_ne_zero htotal
  rw [hascent.modularity_eq, lt_add_iff_pos_right]
  exact div_pos (hgain.trans_le hsum) (div_pos hweight zero_lt_two)

end Ascent

/-! As many communities as nodes -/

theorem length_le_length_flatten {lists : List (List Nat)} (hnonempty : [] ∉ lists) :
    lists.length ≤ lists.flatten.length := by
  induction lists with
  | nil => exact Nat.le_refl _
  | cons list rest ih =>
      rw [List.mem_cons, not_or] at hnonempty
      have hlist := List.length_pos_iff.mpr (Ne.symm hnonempty.1)
      have hrest := ih hnonempty.2
      rw [List.flatten_cons, List.length_append, List.length_cons]
      omega

theorem eq_map_singleton {lists : List (List Nat)} (hnonempty : [] ∉ lists)
    (hlength : lists.flatten.length = lists.length) :
    lists = lists.flatten.map fun item => [item] := by
  induction lists with
  | nil => rfl
  | cons list rest ih =>
      rw [List.mem_cons, not_or] at hnonempty
      have hlist := List.length_pos_iff.mpr (Ne.symm hnonempty.1)
      have hrest := length_le_length_flatten hnonempty.2
      rw [List.flatten_cons, List.length_append, List.length_cons] at hlength
      obtain ⟨item, rfl⟩ := List.length_eq_one_iff.mp (by omega : list.length = 1)
      rw [List.flatten_cons, List.singleton_append, List.map_cons,
        ← ih hnonempty.2 (by rw [List.length_singleton] at hlength; omega)]

theorem Partition.perm_singletonGroups {groups : List (List Nat)} {size : Nat}
    (hgroups : Partition groups size) (hlength : groups.length = size) :
    groups.Perm (singletonGroups size) := by
  have hflatten : groups.flatten.length = groups.length := by
    rw [hgroups.perm.length_eq, List.length_range, hlength]
  rw [eq_map_singleton hgroups.nonempty hflatten, singletonGroups]
  exact hgroups.perm.map _

/-- Where no two nodes are together, nothing is gained. -/
theorem Level.modularity_merge_of_length {original network : Network} {groups : List (List Nat)}
    (hlevel : Level original network groups) {assignment : Assignment}
    (hsize : assignment.community.size = network.size)
    (hlength : assignment.labels.length = network.size) (resolution : ℚ) :
    original.modularity resolution (assignment.merge groups) =
      original.modularity resolution groups := by
  have hblocks : assignment.blocks.Perm (Assignment.singletons network).blocks := by
    rw [Assignment.blocks_singletons, ← hsize]
    apply assignment.partition_blocks.perm_singletonGroups
    rw [Assignment.length_blocks, hlength, hsize]
  have hmerged := hlevel.modularity_merge hsize resolution
  have hsingle := hlevel.modularity_merge (Tracks.singletons network).size_eq resolution
  rw [Assignment.merge_singletons hlevel.length_eq] at hsingle
  rw [hmerged, hsingle, network.modularity_eq_sum, network.modularity_eq_sum]
  exact (hblocks.map _).sum_eq

/-! Runs -/

section Run

variable {σ : Type} (draw : σ → Nat → List Nat × σ) {original network : Network}
variable {groups : List (List Nat)} (resolution : ℚ)

theorem ascent_settleVisits (hlevel : Level original network groups) (order : List Nat) :
    Ascent original resolution groups
      (settleVisits network groups resolution original.total order roundLimit
        (.singletons network))
      ((settle network resolution original.total order).1.merge groups) where
  path := by
    have hpath := (records_settleVisits network groups resolution original.total order roundLimit
      (.singletons network) false).path
    rw [Assignment.merge_singletons hlevel.length_eq] at hpath
    exact hpath
  valid := by
    intro visited hmem
    obtain ⟨hnetwork, hgroups, htracks⟩ :=
      mem_settleVisits network groups resolution original.total (Tracks network)
        (fun assignment moved node htracks =>
          htracks.visit hlevel.undirected.bounded resolution original.total moved node)
        (Tracks.singletons network) hmem
    exact ⟨by rwa [hnetwork, hgroups], by rwa [hnetwork]⟩

theorem ascent_mergeVisits (htotal : original.total ≠ 0) (hlevel : Level original network groups)
    (fuel : Nat) (source : σ) :
    Ascent original resolution groups
      (mergeVisits draw resolution original.total fuel source network groups)
      (mergeUpTo draw resolution original.total fuel source network groups) := by
  induction fuel generalizing source network groups with
  | zero => exact .nil _
  | succ fuel ih =>
      rw [mergeVisits, mergeUpTo]
      split
      · exact .nil _
      · have hsettle := ascent_settleVisits resolution hlevel (draw source network.size).1
        have hmoved := moved_settle network groups resolution original.total
          (draw source network.size).1
        have hsize := size_community_settle network resolution original.total
          (draw source network.size).1
        dsimp only
        cases hstate : settle network resolution original.total (draw source network.size).1 with
        | mk assignment moved =>
            rw [hstate] at hsettle hmoved hsize
            cases moved with
            | false =>
                have hsame := hsettle.path.eq_of_not_moves hmoved.symm
                rw [hsame] at hsettle
                rw [List.append_nil]
                exact hsettle
            | true =>
                -- what was moved has gained, which as many communities as nodes cannot have
                have hrise := hsettle.modularity_lt htotal (List.any_eq_true.mp hmoved.symm)
                have hfewer : assignment.labels.length ≠ network.size := by
                  intro hlength
                  rw [hlevel.modularity_merge_of_length hsize hlength] at hrise
                  exact lt_irrefl _ hrise
                simp only [if_neg hfewer]
                exact hsettle.append (ih (hlevel.contract hsize) _)

theorem ascent_visits (hundirected : network.Undirected) (source : σ) :
    Ascent network resolution (singletonGroups network.size)
      (network.visits draw source resolution) (clusters draw source resolution network) := by
  rw [Network.visits, clusters]
  split
  · exact .nil _
  · next htotal => exact ascent_mergeVisits draw resolution htotal (.ofSingletons hundirected) _ _

end Run

/-- In exact arithmetic, and for any order of visits on each level, every visit raises the
modularity of the groups of original nodes by its gain in units of the weight of all links.  The
clusters are at least as good as the single nodes, and better if any node moved. -/
theorem Store.modularity_along_visits (history : List Mutation) (σ : Type)
    (draw : σ → Nat → List Nat × σ) (source : σ) (resolution : ℚ) :
    let network := (ofHistory history).network
    let visits := network.visits draw source resolution
    let quality := network.modularity resolution
    let weight : ℚ := network.total / 2
    let single := singletonGroups network.size
    let found := clusters draw source resolution network
    Visit.Path resolution network.total single visits found ∧
      (∀ visited ∈ visits,
        let gain := visited.gain resolution network.total
        let after := visited.after resolution network.total
        Partition visited.before network.size ∧ Partition after network.size ∧ 0 ≤ gain ∧
          (visited.moves resolution network.total ↔ 0 < gain) ∧
          quality after = quality visited.before + gain / weight) ∧
      quality single ≤ quality found ∧
      ((∃ visited ∈ visits, visited.moves resolution network.total) →
        quality single < quality found) := by
  intro network visits quality weight single found
  have hundirected : network.Undirected := undirected_network (Sound.ofHistory history)
  have hascent := ascent_visits draw resolution hundirected source
  refine ⟨hascent.path, ?_, hascent.modularity_le, ?_⟩
  · intro visited hmem
    have hvalid := hascent.valid visited hmem
    exact ⟨hvalid.partition_before, hvalid.partition_after resolution,
      visited.gain_nonneg resolution network.total, hvalid.moves_iff resolution,
      hvalid.modularity_after resolution⟩
  · intro hmoves
    refine hascent.modularity_lt ?_ hmoves
    intro hnone
    obtain ⟨visited, hmem, -⟩ := hmoves
    rw [show visits = [] from if_pos hnone] at hmem
    cases hmem

namespace Store

theorem network_grown : (ofHistory grown).network = #[[(1, 2)], [(0, 2)]] := by
  have hsort : ["a", "b"].mergeSort = ["a", "b"] := List.mergeSort_of_pairwise (by decide)
  have hnames : (ofHistory grown).networkNames = ["a", "b"] := by
    rw [networkNames, show (ofHistory grown).chunkIds = ["a", "b"] by decide, hsort]
  have hreferrers : Link.referrers (ofHistory grown) ["a", "b"] "x" = ["a", "b"] := by
    rw [Link.referrers, show ((ofHistory grown).callers "x").filter ["a", "b"].contains =
      ["a", "b"] by decide, hsort]
  have hlinks : (ofHistory grown).networkLinks = [⟨"a", "b", 1⟩, ⟨"a", "b", 1⟩] := by
    rw [networkLinks, hnames, show (ofHistory grown).phantomIds = ["x"] by decide,
      List.mergeSort_singleton, List.flatMap_singleton, hreferrers]
    decide
  rw [network, hnames, hlinks]
  decide

theorem modularity_along_visits_grown :
    let network := (ofHistory grown).network
    let draw := fun (_ : Unit) (size : Nat) => (List.range size, ())
    (∃ visited ∈ network.visits draw () (1 : ℚ), visited.moves (1 : ℚ) network.total) ∧
      network.modularity (1 : ℚ) (singletonGroups network.size) <
        network.modularity (1 : ℚ) (clusters draw () (1 : ℚ) network) := by
  intro network draw
  have hmoves : ∃ visited ∈ network.visits draw () (1 : ℚ),
      visited.moves (1 : ℚ) network.total := by
    rw [show network = #[[(1, 2)], [(0, 2)]] from network_grown]
    exact List.any_eq_true.mp (by decide +kernel)
  exact ⟨hmoves, (modularity_along_visits grown Unit draw () 1).2.2.2 hmoves⟩

end Store

end CodeGraph
