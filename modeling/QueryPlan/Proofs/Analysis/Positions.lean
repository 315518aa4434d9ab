import QueryPlan.Proofs.Analysis.Derivation

/-!
Where values stand. A subplan is told apart from others, even from equal ones, by its address, which
lists the inputs to take on the way down to it. Main statement: a pass records the values of the
subplans in the order of `addresses`, and stepping back from any node finds exactly the values of
its inputs.
-/
namespace QueryPlan
namespace Plan

def addresses : Plan → List (List Nat)
  | get _ => [[]]
  | unary _ p => p.addresses.map (0 :: ·) ++ [[]]
  | join _ l r => l.addresses.map (0 :: ·) ++ r.addresses.map (1 :: ·) ++ [[]]

def subplan? (p : Plan) : List Nat → Option Plan
  | [] => some p
  | k :: address => p.children[k]?.bind (·.subplan? address)

theorem subplan?_addresses (p : Plan) : p.addresses.map p.subplan? = p.postorder.map some := by
  induction p with
  | get r => rfl
  | unary o p ih =>
    have below : p.addresses.map (fun a => (unary o p).subplan? (0 :: a)) =
        p.addresses.map p.subplan? := rfl
    simp only [addresses, postorder, List.map_append, List.map_map, Function.comp_def, below, ih]
    rfl
  | join j l r ihl ihr =>
    have left : l.addresses.map (fun a => (join j l r).subplan? (0 :: a)) =
        l.addresses.map l.subplan? := rfl
    have right : r.addresses.map (fun a => (join j l r).subplan? (1 :: a)) =
        r.addresses.map r.subplan? := rfl
    simp only [addresses, postorder, List.map_append, List.map_map, Function.comp_def, left, right,
      ihl, ihr]
    rfl

theorem length_addresses (p : Plan) : p.addresses.length = p.size := by
  simpa [size] using congrArg List.length p.subplan?_addresses

theorem nodup_addresses (p : Plan) : p.addresses.Nodup := by
  have below {k : Nat} {as : List (List Nat)} (nodup : as.Nodup) : (as.map (k :: ·)).Nodup :=
    List.Pairwise.map _ (fun a b differ same => differ (List.cons.inj same).2) nodup
  induction p with
  | get r => simp [addresses]
  | unary o p ih =>
    rw [addresses, List.nodup_append]
    refine ⟨below ih, List.pairwise_singleton _ [], ?_⟩
    intro a mem b root same
    obtain ⟨rest, _, rfl⟩ := List.mem_map.1 mem
    rw [List.mem_singleton.1 root] at same
    cases same
  | join j l r ihl ihr =>
    rw [addresses, List.append_assoc, List.nodup_append, List.nodup_append]
    refine ⟨below ihl, ⟨below ihr, List.pairwise_singleton _ [], ?_⟩, ?_⟩
    · intro a mem b root same
      obtain ⟨rest, _, rfl⟩ := List.mem_map.1 mem
      rw [List.mem_singleton.1 root] at same
      cases same
    · intro a mem b mem' same
      obtain ⟨rest, _, rfl⟩ := List.mem_map.1 mem
      rw [← same] at mem'
      simp at mem'

/-- In the postorder of `p` the nodes of the subplan at `address`, which is `node`, stand from
`start` on. -/
inductive Stands : Plan → Nat → List Nat → Plan → Prop
  | here {p} : Stands p 0 [] p
  | input {o p start address node} (below : Stands p start address node) :
      Stands (unary o p) start (0 :: address) node
  | left {j l r start address node} (below : Stands l start address node) :
      Stands (join j l r) start (0 :: address) node
  | right {j l r start address node} (below : Stands r start address node) :
      Stands (join j l r) (l.size + start) (1 :: address) node

section
variable {p node : Plan} {start : Nat} {address : List Nat}

theorem Stands.subplan? (stands : Stands p start address node) :
    p.subplan? address = some node := by
  induction stands with
  | here => rfl
  | input below ih | left below ih | right below ih => exact ih

theorem Stands.fits (stands : Stands p start address node) :
    start + node.beneath.length < p.size := by
  induction stands with
  | here => simp [size_eq]
  | input below ih => simp only [size_unary]; omega
  | left below ih => simp only [size, postorder, List.length_append] at ih ⊢; omega
  | right below ih =>
    simp only [size, postorder, List.length_append, List.length_singleton] at ih ⊢
    omega

theorem Stands.root_address (stands : Stands p start address node) :
    p.addresses[start + node.beneath.length]? = some address := by
  induction stands with
  | @here p =>
    have last : p.addresses.getLast? = some [] := by cases p <;> simp [addresses]
    rw [List.getLast?_eq_getElem?, length_addresses, size_eq] at last
    simpa using last
  | @input o p start address node below ih =>
    have fits := below.fits
    rw [addresses, List.getElem?_append_left (by simpa [length_addresses] using fits),
      List.getElem?_map, ih]
    rfl
  | @left j l r start address node below ih =>
    have fits := below.fits
    rw [addresses, List.append_assoc,
      List.getElem?_append_left (by simpa [length_addresses] using fits), List.getElem?_map, ih]
    rfl
  | @right j l r start address node below ih =>
    have fits := below.fits
    have before : (l.addresses.map (0 :: ·)).length = l.size := by simp [length_addresses]
    rw [addresses, List.append_assoc, List.getElem?_append_right (by omega), before,
      List.getElem?_append_left (by simp only [List.length_map, length_addresses]; omega),
      List.getElem?_map, show l.size + start + node.beneath.length - l.size =
        start + node.beneath.length by omega, ih]
    rfl

theorem Stands.root (stands : Stands p start address node) :
    p.postorder[start + node.beneath.length]? = some node := by
  have entry := congrArg (·[start + node.beneath.length]?) p.subplan?_addresses
  simpa [stands.root_address, stands.subplan?] using entry.symm

theorem Stands.trans {inner : Plan} {start' : Nat} {address' : List Nat}
    (outer : Stands p start address node) (below : Stands node start' address' inner) :
    Stands p (start + start') (address ++ address') inner := by
  induction outer with
  | here => simpa using below
  | input _ ih => exact .input (ih below)
  | left _ ih => exact .left (ih below)
  | right _ ih =>
    rw [Nat.add_assoc]
    exact .right (ih below)

theorem Stands.inputs (stands : Stands p start address node) :
    List.Forall₂
      (fun c i => ∃ begin, Stands p begin (address ++ [c.2]) c.1 ∧ i = begin + c.1.beneath.length)
      node.children.zipIdx (rootPositions start node.children) := by
  cases node with
  | get r => exact .nil
  | unary o c => exact .cons ⟨start, stands.trans (.input .here), rfl⟩ .nil
  | join j l r =>
    exact .cons ⟨start, stands.trans (.left .here), rfl⟩
      (.cons ⟨start + l.size, stands.trans (.right .here), rfl⟩ .nil)

theorem exists_stands_of_mem (mem : address ∈ p.addresses) :
    ∃ start node, Stands p start address node := by
  induction p generalizing address with
  | get r =>
    rw [List.mem_singleton.1 mem]
    exact ⟨_, _, .here⟩
  | unary o p ih =>
    rcases List.mem_append.1 mem with below | root
    · obtain ⟨rest, inside, rfl⟩ := List.mem_map.1 below
      obtain ⟨start, node, stands⟩ := ih inside
      exact ⟨_, _, .input stands⟩
    · rw [List.mem_singleton.1 root]
      exact ⟨_, _, .here⟩
  | join j l r ihl ihr =>
    rcases List.mem_append.1 mem with below | root
    · rcases List.mem_append.1 below with left | right
      · obtain ⟨rest, inside, rfl⟩ := List.mem_map.1 left
        obtain ⟨start, node, stands⟩ := ihl inside
        exact ⟨_, _, .left stands⟩
      · obtain ⟨rest, inside, rfl⟩ := List.mem_map.1 right
        obtain ⟨start, node, stands⟩ := ihr inside
        exact ⟨_, _, .right stands⟩
    · rw [List.mem_singleton.1 root]
      exact ⟨_, _, .here⟩

theorem exists_stands {i : Nat} (found : p.postorder[i]? = some node) :
    ∃ start address, Stands p start address node ∧ i = start + node.beneath.length := by
  have inside : i < p.addresses.length := by
    rw [length_addresses, size]
    exact (List.getElem?_eq_some_iff.1 found).1
  obtain ⟨start, node', stands⟩ := exists_stands_of_mem (List.getElem_mem inside)
  have place : i = start + node'.beneath.length := by
    apply (List.getElem?_inj inside p.nodup_addresses).1
    rw [stands.root_address, List.getElem?_eq_getElem inside]
  have same : node' = node := by
    have root := stands.root
    rw [← place, found] at root
    exact (Option.some.inj root).symm
  exact ⟨start, _, same ▸ stands, same ▸ place⟩

end
end Plan

namespace Derived
variable (analysis : Analysis α)

theorem sizes_of (p : Plan) (i : Nat) :
    (of analysis p).sizes[i]? = p.postorder[i]?.map Plan.size := by
  simp [of_eq]

section
variable {p node : Plan} {start : Nat} {address : List Nat}

theorem recorded_inputs (stands : p.Stands start address node) :
    List.Forall₂ (fun c i => (of analysis p).sizes[i]? = some c.size) node.children
      (rootPositions start node.children) := by
  have inputs := stands.inputs
  have sizes : List.Forall₂ (fun (c : Plan × Nat) i => (of analysis p).sizes[i]? = some c.1.size)
      node.children.zipIdx (rootPositions start node.children) := by
    refine inputs.imp fun c i ⟨begin, input, place⟩ => ?_
    rw [sizes_of, place, input.root]
    rfl
  have children : node.children = node.children.zipIdx.map Prod.fst := by simp
  rw [children, List.forall₂_map_left_iff, ← children]
  exact sizes

theorem stepsBack_inputs (stands : p.Stands start address node) :
    StepsBack (of analysis p).sizes (start + node.beneath.length)
      (rootPositions start node.children).reverse := by
  have steps := stepsBack_rootPositions (recorded_inputs analysis stands) .done
  rwa [List.append_nil, ← Plan.length_beneath] at steps

theorem childrenRev_of (stands : p.Stands start address node) :
    (of analysis p).childrenRev (start + node.beneath.length) node.children.length =
      (rootPositions start node.children).reverse := by
  rw [childrenRev, Plan.length_beneath]
  exact inputsRev_rootPositions (recorded_inputs analysis stands)

theorem addresses_inputs (stands : p.Stands start address node) :
    (rootPositions start node.children).map (p.addresses[·]?) =
      (List.range node.children.length).map fun k => some (address ++ [k]) := by
  have inputs : List.Forall₂ (fun (c : Plan × Nat) i => p.addresses[i]? = some (address ++ [c.2]))
      node.children.zipIdx (rootPositions start node.children) := by
    refine stands.inputs.imp fun c i ⟨begin, input, place⟩ => ?_
    rw [place, input.root_address]
  have indices : List.range node.children.length = node.children.zipIdx.map Prod.snd := by
    rw [List.zipIdx_map_snd, List.range_eq_range']
  rw [indices, List.map_map, ← List.forall₂_eq_eq_eq, List.forall₂_map_left_iff,
    List.forall₂_map_right_iff]
  exact inputs.flip.imp fun i c same => same

end

/-- The pass records in postorder what recursion gives, which is for each node the value of its
subplan derived alone. From a node one steps back to the values of its inputs, the last one first,
and to no others: each step finds a size recorded before the node and goes back over so many
nodes. -/
theorem of_agrees_with_recursion (p : Plan) :
    (of analysis p).results.toList = p.postorder.map (Plan.derive analysis) ∧
      (∀ node : Plan,
        node.derive analysis = analysis node (node.children.map (Plan.derive analysis)) ∧
          (of analysis node).root? = some (node.derive analysis)) ∧
      p.addresses.Nodup ∧
      ∀ i node, p.postorder[i]? = some node → ∃ address,
        p.addresses[i]? = some address ∧ p.subplan? address = some node ∧
          StepsBack (of analysis p).sizes i
            ((of analysis p).childrenRev i node.children.length) ∧
          (∀ j ∈ (of analysis p).childrenRev i node.children.length, j < i) ∧
          ((of analysis p).childrenRev i node.children.length).map (p.addresses[·]?) =
            ((List.range node.children.length).map fun k => some (address ++ [k])).reverse := by
  refine ⟨by rw [of_eq], fun node => ⟨node.derive_eq analysis, root?_of analysis node⟩,
    p.nodup_addresses, ?_⟩
  intro i node found
  obtain ⟨start, address, stands, rfl⟩ := Plan.exists_stands found
  have steps := stepsBack_inputs analysis stands
  refine ⟨address, stands.root_address, stands.subplan?, ?_⟩
  rw [childrenRev_of analysis stands]
  refine ⟨steps, steps.lt, ?_⟩
  rw [List.map_reverse, addresses_inputs stands]

def Sample.nested : Plan :=
  let t : Plan := .get ⟨"t", []⟩
  .join ⟨.inner, none⟩ (.join ⟨.cross, none⟩ t (t.limit 3 0)) (.join ⟨.cross, none⟩ (t.limit 3 0) t)

theorem of_agrees_with_recursion_nested :
    Sample.nested.postorder[8]? = some Sample.nested ∧
      ((of (fun _ sizes => 1 + sum sizes) Sample.nested).childrenRev 8 2).map
        (Sample.nested.addresses[·]?) = [some [1], some [0]] ∧
      (of (fun _ sizes => 1 + sum sizes) Sample.nested).childrenRev 8 2 = [7, 3] := by
  obtain ⟨address, here, _, _, _, inputs⟩ :=
    (of_agrees_with_recursion (fun _ sizes => 1 + sum sizes) Sample.nested).2.2.2 8 _ rfl
  cases here
  exact ⟨rfl, inputs, by decide +kernel⟩

end Derived
end QueryPlan
