import DecisionNetwork.Proofs.Inference.Exchange
import DecisionNetwork.Proofs.Inference.Posterior
import DecisionNetwork.Proofs.Network.Reach
import Mathlib.Tactic.Ring

/-!
Contract: variables that no path joins are independent, whatever is known on either side.

Owns:
- `Network.Connected`, by paths between variables alone, and `Connected.mem_connectedIds`, by which
  the search along edges finds at least what is connected;
- `Network.Apart`, groups of variables of which none is connected to one of the other group;
- `Network.sideOf`, all that is connected to a group, which `separates_sideOf` parts from the rest;
- `mass_mul_of_separates`, the rows that pass a test on either side counted by a product;
- `posterior_eq_mul_of_apart`, the posterior of both groups as a product of two posteriors.
-/

namespace DecisionNetwork

namespace Network

variable {α : Type} {network : Network α}

/-- Whether an identifier is that of a node other than a utility. -/
def IsVariable (network : Network α) (id : String) : Prop :=
  ∃ node, network.node? id = some node ∧ node.kind ≠ .utility

/-- Whether one of two variables is an input of the other. -/
def Adjacent (network : Network α) (source target : String) : Prop :=
  network.IsVariable source ∧ network.IsVariable target ∧
    network.undirectedEdges.Joins source target

/-- Whether a path of any length joins two identifiers, no utility lying on it. -/
def Connected (network : Network α) : String → String → Prop :=
  Relation.ReflTransGen network.Adjacent

/-- Whether nothing in one group is connected to anything in the other. -/
def Apart (network : Network α) (group others : List String) : Prop :=
  ∀ name ∈ group, ∀ other ∈ others, ¬ network.Connected name other

/-- The search finds what is connected. It may find more, since it also passes through a utility
that chance nodes read. -/
theorem Connected.mem_connectedIds {source target : String}
    (connected : network.Connected source target) :
    target ∈ connectedIds network.undirectedEdges source := by
  induction connected with
  | refl => exact self_mem_connectedIds _ source
  | tail _ adjacent found => exact mem_connectedIds_of_joins found adjacent.2.2

theorem apart_of_connectedIds {group others : List String}
    (notFound : ∀ name ∈ group, ∀ other ∈ others,
      other ∉ connectedIds network.undirectedEdges name) : network.Apart group others :=
  fun name inGroup other inOthers connected =>
    notFound name inGroup other inOthers connected.mem_connectedIds

/-- A chance node and an input that is a chance variable as well are adjacent both ways. -/
theorem Built.adjacent_of_input (built : network.Built) {node : ChanceNode α}
    (listed : node ∈ network.chanceNodes) {input : String} (reads : input ∈ node.inputs.toList)
    (chance : (network.chanceNode? input).isSome) :
    network.Adjacent node.id input ∧ network.Adjacent input node.id := by
  have found := chanceNode?_eq_some_iff.1 (built.mem_chanceNodes_iff.1 listed)
  obtain ⟨other, otherFound⟩ := Option.isSome_iff_exists.1 chance
  have kind (node : ChanceNode α) : (Node.chance node).kind ≠ .utility := NodeKind.noConfusion
  have nodeVariable : network.IsVariable node.id := ⟨.chance node, found, kind node⟩
  have inputVariable : network.IsVariable input :=
    ⟨.chance other, chanceNode?_eq_some_iff.1 otherFound, kind other⟩
  have joins (source target : String) (links : Node.Links (.chance node) source target) :
      network.undirectedEdges.Joins source target :=
    (joins_undirectedEdges_iff network source target).2
      ⟨.chance node, Network.mem_nodeList_iff.2 ⟨node.id, found⟩, kind node, links⟩
  exact ⟨⟨nodeVariable, inputVariable, joins _ _ ⟨input, reads, Or.inr ⟨rfl, rfl⟩⟩⟩,
    ⟨inputVariable, nodeVariable, joins _ _ ⟨input, reads, Or.inl ⟨rfl, rfl⟩⟩⟩⟩

/-- Whether something in a group is connected to an identifier. -/
def Reached (network : Network α) (group : List String) (name : String) : Prop :=
  ∃ start ∈ group, network.Connected start name

theorem Reached.tail {group : List String} {source target : String}
    (reached : network.Reached group source) (adjacent : network.Adjacent source target) :
    network.Reached group target := by
  obtain ⟨start, inGroup, connected⟩ := reached
  exact ⟨start, inGroup, connected.tail adjacent⟩

open Classical in
/-- A group and all nodes that are connected to it. -/
noncomputable def sideOf (network : Network α) (group : List String) : List String :=
  (group ++ network.ids).filter fun name => network.Reached group name

theorem mem_sideOf_iff {group : List String} {name : String} :
    name ∈ network.sideOf group ↔
      (name ∈ group ∨ name ∈ network.ids) ∧ network.Reached group name := by
  simp [sideOf, or_and_right]

theorem mem_sideOf_of_mem {group : List String} {name : String} (inGroup : name ∈ group) :
    name ∈ network.sideOf group :=
  mem_sideOf_iff.2 ⟨Or.inl inGroup, name, inGroup, .refl⟩

/-- Groups that are apart lie on two sides of the network. -/
theorem Apart.not_mem_sideOf {group others : List String} (apart : network.Apart group others)
    {other : String} (inOthers : other ∈ others) : other ∉ network.sideOf group := by
  intro inSide
  obtain ⟨start, inGroup, connected⟩ := (mem_sideOf_iff.1 inSide).2
  exact apart start inGroup other inOthers connected

/-- No chance node and no input of it that is a chance variable lie on both sides. -/
theorem separates_sideOf (built : network.Built) (group : List String) :
    network.Separates (network.sideOf group) := by
  intro node listed input reads inDomains
  have chance : (network.chanceNode? input).isSome := by
    rwa [built.get?_domains, Option.isSome_map] at inDomains
  have isNode {id : String} (isChance : (network.chanceNode? id).isSome) : id ∈ network.ids := by
    obtain ⟨node, found⟩ := Option.isSome_iff_exists.1 isChance
    exact SortedMap.mem_keys_iff.2 (Option.isSome_of_eq_some (chanceNode?_eq_some_iff.1 found))
  have nodeChance : (network.chanceNode? node.id).isSome :=
    Option.isSome_of_eq_some (built.mem_chanceNodes_iff.1 listed)
  obtain ⟨forth, back⟩ := built.adjacent_of_input listed reads chance
  rw [mem_sideOf_iff, mem_sideOf_iff]
  constructor
  · rintro ⟨-, reached⟩
    exact ⟨Or.inr (isNode chance), reached.tail forth⟩
  · rintro ⟨-, reached⟩
    exact ⟨Or.inr (isNode nodeChance), reached.tail back⟩

end Network

namespace Inference

open Network Assignment

variable {network : Network ℚ} {settings : Settings}

/-- Tests on two sides of the network are independent. -/
theorem mass_mul_of_separates {side : List String} (separates : network.Separates side)
    {inside outside : Assignment → Bool} (insideTests : TestsInside side inside)
    (outsideTests : TestsOutside side outside) :
    (mass network fun row => inside row && outside row) * (mass network fun _ => true) =
      mass network inside * mass network outside := by
  have insideAll : TestsInside side fun _ => true := fun _ _ => rfl
  have outsideAll : TestsOutside side fun _ => true := fun _ _ => rfl
  have exchanged := mass_exchange separates insideTests insideAll outsideTests outsideAll
  simpa only [Bool.and_true, Bool.true_and] using exchanged

section Evidence

variable {first second : List String} {left right row : Assignment}

/-- Evidence about variables that are apart does not contradict itself. -/
theorem consistentWith_of_apart (apart : network.Apart left.names right.names) :
    left.consistentWith right = true := by
  refine consistentWith_iff.2 fun name value other inLeft inRight => ?_
  have bound : name ∈ left.names := mem_names_iff.2 (Option.isSome_of_eq_some inLeft)
  have boundAgain : name ∈ right.names := mem_names_iff.2 (Option.isSome_of_eq_some inRight)
  exact absurd .refl (apart name bound name boundAgain)

section Sides

variable {side : List String} (separates : network.Separates side)
  (inside : ∀ name ∈ first ++ left.names, name ∈ side)
  (outside : ∀ name ∈ second ++ right.names, name ∉ side)
include separates inside outside

theorem evidenceMass_mul_of_separates (agree : left.consistentWith right = true) :
    evidenceMass network (left.compose right) * (mass network fun _ => true) =
      evidenceMass network left * evidenceMass network right := by
  have leftInside : TestsInside side (·.contains left) :=
    testsInside_contains fun name bound => inside name (List.mem_append_right _ bound)
  have rightOutside : TestsOutside side (·.contains right) :=
    testsOutside_contains fun name bound => outside name (List.mem_append_right _ bound)
  rw [evidenceMass, evidenceMass, evidenceMass,
    ← mass_mul_of_separates separates leftInside rightOutside]
  congr 1
  exact mass_congr fun whole _ => contains_compose agree whole

theorem partMass_mul_of_separates (agree : left.consistentWith right = true)
    (member : row ∈ (network.domains.among (first ++ second)).combinations) :
    partMass network (left.compose right) row * (mass network fun _ => true) =
      partMass network left (row.restrict first) *
        partMass network right (row.restrict second) := by
  have leftInside : TestsInside side (·.contains left) :=
    testsInside_contains fun name bound => inside name (List.mem_append_right _ bound)
  have firstInside : TestsInside side (·.contains (row.restrict first)) :=
    testsInside_contains fun name bound =>
      inside name (List.mem_append_left _ (mem_names_restrict bound))
  have rightOutside : TestsOutside side (·.contains right) :=
    testsOutside_contains fun name bound => outside name (List.mem_append_right _ bound)
  have secondOutside : TestsOutside side (·.contains (row.restrict second)) :=
    testsOutside_contains fun name bound =>
      outside name (List.mem_append_left _ (mem_names_restrict bound))
  rw [partMass, partMass, partMass,
    ← mass_mul_of_separates separates (leftInside.and firstInside)
      (rightOutside.and secondOutside)]
  congr 1
  refine mass_congr fun whole _ => ?_
  rw [contains_compose agree, contains_eq_parts member whole]
  ac_rfl

end Sides

end Evidence

/-- Two groups of chance variables are independent if each lies apart from the other and from what
is known of the other: each row of their common posterior is the product of a row of the posterior
of the first, given what is known on its side, and one of the second, given what is known on the
other side. -/
theorem posterior_eq_mul_of_apart (built : network.Built) (nonnegative : network.Nonnegative)
    {first second : List String} {left right : Assignment}
    (chance : ∀ name ∈ first ++ second, (network.chanceNode? name).isSome)
    (apart : network.Apart (first ++ left.names) (second ++ right.names))
    (positive : 0 < evidenceMass network (left.compose right))
    (within : (jointDomains network false).count ≤ settings.maxAssignments) :
    ∃ both one other,
      posterior settings network (first ++ second) (left.compose right) = .ok both ∧
      posterior settings network first left = .ok one ∧
      posterior settings network second right = .ok other ∧
      both.rows.keys.Perm (network.domains.among (first ++ second)).combinations ∧
      ∀ row ∈ both.rows.keys,
        row.restrict first ∈ one.rows.keys ∧ row.restrict second ∈ other.rows.keys ∧
        both.probability row =
          one.probability (row.restrict first) * other.probability (row.restrict second) := by
  have agree : left.consistentWith right = true :=
    consistentWith_of_apart fun name bound other boundOther =>
      apart name (List.mem_append_right _ bound) other (List.mem_append_right _ boundOther)
  have separates := separates_sideOf built (first ++ left.names)
  have inside : ∀ name ∈ first ++ left.names, name ∈ network.sideOf (first ++ left.names) :=
    fun _ => mem_sideOf_of_mem
  have outside : ∀ name ∈ second ++ right.names, name ∉ network.sideOf (first ++ left.names) :=
    fun _ => apart.not_mem_sideOf
  have total : 0 < mass network fun _ => true :=
    positive.trans_le (mass_mono nonnegative fun _ _ _ => rfl)
  -- Neither side of the evidence is without mass, as their masses multiply to one that is not zero.
  have product := evidenceMass_mul_of_separates separates inside outside agree
  have productPositive : 0 < evidenceMass network left * evidenceMass network right :=
    product ▸ mul_pos positive total
  have leftPositive : 0 < evidenceMass network left :=
    (mass_nonneg nonnegative _).lt_of_ne' (left_ne_zero_of_mul productPositive.ne')
  have rightPositive : 0 < evidenceMass network right :=
    (mass_nonneg nonnegative _).lt_of_ne' (right_ne_zero_of_mul productPositive.ne')
  have answer {names : List String} (part : names ⊆ first ++ second) {evidence : Assignment}
      (hasMass : 0 < evidenceMass network evidence) :
      posterior settings network names evidence = .ok (posteriorTable network names evidence) :=
    posterior_of_evidenceMass_pos built (fun name member => chance name (part member))
      ((count_among_le_of_mass_pos positive names).trans within) within hasMass
  have firstPart : first ⊆ first ++ second := List.subset_append_left first second
  have secondPart : second ⊆ first ++ second := List.subset_append_right first second
  refine ⟨_, _, _, answer (List.Subset.refl _) positive, answer firstPart leftPositive,
    answer secondPart rightPositive, keys_posteriorTable_perm, fun row listed => ?_⟩
  have member := keys_posteriorTable_perm.mem_iff.1 listed
  have inFirst := restrict_mem_among member firstPart
  have inSecond := restrict_mem_among member secondPart
  refine ⟨keys_posteriorTable_perm.mem_iff.2 inFirst, keys_posteriorTable_perm.mem_iff.2 inSecond,
    ?_⟩
  rw [probability_posteriorTable member, probability_posteriorTable inFirst,
    probability_posteriorTable inSecond]
  calc partMass network (left.compose right) row / evidenceMass network (left.compose right)
      = partMass network (left.compose right) row * (mass network fun _ => true) /
          (evidenceMass network (left.compose right) * mass network fun _ => true) :=
        (mul_div_mul_right _ _ total.ne').symm
    _ = partMass network left (row.restrict first) *
          partMass network right (row.restrict second) /
          (evidenceMass network left * evidenceMass network right) := by
        rw [partMass_mul_of_separates separates inside outside agree member, product]
    _ = _ := (div_mul_div_comm _ _ _ _).symm

section CoinBesideLamp

/-- A lamp whose probabilities do not add up to one. -/
def lamp : ChanceNode ℚ where
  id := "lamp"
  inputs := .empty
  distribution := .categorical (.ofList
    [(.single "lamp" (.boolean true), 1 / 4), (.single "lamp" (.boolean false), 1 / 2)])

/-- A room that is bright every other time while the lamp is on, and seldom else. -/
def room : ChanceNode ℚ where
  id := "room"
  inputs := .ofList ["lamp"]
  distribution := .conditional (.ofList
    [(.single "lamp" (.boolean true), .ofList
        [(.single "room" (.text "bright"), 1 / 2), (.single "room" (.text "dark"), 1 / 2)]),
      (.single "lamp" (.boolean false), .ofList
        [(.single "room" (.text "bright"), 1 / 8), (.single "room" (.text "dark"), 7 / 8)])])

/-- A coin that is reported once, and a lamp in a room that have nothing to do with it. -/
def coinBesideLamp : Network ℚ :=
  ⟨(((SortedMap.empty.insert "coin" (.chance coin)).insert "first" (.chance (echo "first"))).insert
    "lamp" (.chance lamp)).insert "room" (.chance room)⟩

theorem coinBesideLamp_built : coinBesideLamp.Built := by
  have withCoin := Built.empty.insert (.chance coin) (by decide +kernel) (by decide +kernel)
  have withFirst := withCoin.insert (.chance (echo "first")) (by decide +kernel)
    (by decide +kernel)
  have withLamp := withFirst.insert (.chance lamp) (by decide +kernel) (by decide +kernel)
  exact withLamp.insert (.chance room) (by decide +kernel) (by decide +kernel)

/-- The report of a tail leaves the coin open, and in a bright room the lamp is on two times out of
three. -/
theorem posterior_eq_mul_of_apart_coinBesideLamp :
    let report := Assignment.single "first" (.boolean false)
    let light := Assignment.single "room" (.text "bright")
    coinBesideLamp.Apart (["coin"] ++ report.names) (["lamp"] ++ light.names) ∧
      0 < evidenceMass coinBesideLamp (report.compose light) ∧
      ∃ both one other,
        posterior {} coinBesideLamp (["coin"] ++ ["lamp"]) (report.compose light) = .ok both ∧
        posterior {} coinBesideLamp ["coin"] report = .ok one ∧
        posterior {} coinBesideLamp ["lamp"] light = .ok other ∧
        (∀ row ∈ both.rows.keys,
          both.probability row = one.probability (row.restrict ["coin"]) *
            other.probability (row.restrict ["lamp"])) ∧
        (coinBesideLamp.domains.among (["coin"] ++ ["lamp"])).combinations.map both.probability =
          [1 / 6, 1 / 3, 1 / 6, 1 / 3] := by
  intro report light
  have fromCoin : connectedIds coinBesideLamp.undirectedEdges "coin" = ["first", "coin"] := by
    decide +kernel
  have fromReport : connectedIds coinBesideLamp.undirectedEdges "first" = ["coin", "first"] := by
    decide +kernel
  have apart : coinBesideLamp.Apart (["coin"] ++ report.names) (["lamp"] ++ light.names) := by
    have names : ["coin"] ++ report.names = ["coin", "first"] ∧
        ["lamp"] ++ light.names = ["lamp", "room"] := by decide +kernel
    rw [names.1, names.2]
    apply apart_of_connectedIds
    simp [fromCoin, fromReport]
  have positive : 0 < evidenceMass coinBesideLamp (report.compose light) := by decide +kernel
  have chance : ∀ name ∈ ["coin"] ++ ["lamp"], (coinBesideLamp.chanceNode? name).isSome := by
    decide +kernel
  have within : (jointDomains coinBesideLamp false).count ≤ Settings.maxAssignments {} := by
    decide +kernel
  obtain ⟨both, one, other, bothAnswer, oneAnswer, otherAnswer, _, product⟩ :=
    posterior_eq_mul_of_apart coinBesideLamp_built (by decide +kernel) chance apart positive within
  have isTable := posterior_of_evidenceMass_pos coinBesideLamp_built chance
    ((count_among_le_of_mass_pos positive _).trans within) within positive
  obtain rfl := Except.ok.inj (bothAnswer.symm.trans isTable)
  exact ⟨apart, positive, _, one, other, bothAnswer, oneAnswer, otherAnswer,
    fun row listed => (product row listed).2.2, by decide +kernel⟩

end CoinBesideLamp

end Inference

end DecisionNetwork
