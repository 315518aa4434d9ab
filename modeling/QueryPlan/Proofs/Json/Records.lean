import QueryPlan.Json.Decoder

/-!
What decoders make of records written in either of their two ways, as objects and as arrays. A
written form comes with a flag, `kept`, that tells whether it is to be accepted; one that is not
must be refused by its type. Each way to build a decoder has a lemma that says which flag its
forms get.
-/
namespace QueryPlan

namespace Json

theorem depth_lt_of_item {items : List Json} {j : Json} (mem : j ∈ items) :
    j.depth < (array items).depth := by
  rw [depth, Nat.lt_succ_iff]
  induction items with
  | nil => cases mem
  | cons i items ih =>
    rw [depthItems]
    rcases List.mem_cons.1 mem with rfl | later
    · exact Nat.le_max_left ..
    · exact Nat.le_trans (ih later) (Nat.le_max_right ..)

theorem depth_lt_of_member {members : List (String × Json)} {field : String × Json}
    (mem : field ∈ members) : field.2.depth < (object members).depth := by
  rw [depth, Nat.lt_succ_iff]
  induction members with
  | nil => cases mem
  | cons f members ih =>
    rw [depthMembers]
    rcases List.mem_cons.1 mem with rfl | later
    · exact Nat.le_max_left ..
    · exact Nat.le_trans (ih later) (Nat.le_max_right ..)

theorem depth_contents_lt (tag : String) (contents : Json) :
    contents.depth < (tagged tag contents).depth :=
  depth_lt_of_member (List.mem_singleton_self (tag, contents))

end Json

/-- A record of the given fields: an object of them in any order or, where `whole` does not hold,
the array of their values in the order given. -/
inductive Written (fields : List (String × Json)) : Bool → Json → Prop
  | object {members : List (String × Json)} (order : members.Perm fields) :
    Written fields true (.object members)
  | array : Written fields false (.array (fields.map Prod.snd))

theorem Written.depth_lt {fields : List (String × Json)} {whole : Bool} {j : Json}
    (written : Written fields whole j) {field : String × Json} (mem : field ∈ fields) :
    field.2.depth < j.depth := by
  cases written with
  | object order => exact Json.depth_lt_of_member (order.mem_iff.2 mem)
  | array => exact Json.depth_lt_of_item (List.mem_map_of_mem mem)

theorem Written.depth_lt_tagged {fields : List (String × Json)} {whole : Bool} {j : Json}
    (written : Written fields whole j) (tag : String) :
    ∀ field ∈ fields, field.2.depth < (Json.tagged tag j).depth :=
  fun _ mem => Nat.lt_trans (written.depth_lt mem) (Json.depth_contents_lt tag j)

inductive Listed (form : α → Json → Bool → Prop) : List α → List Json → Bool → Prop
  | nil : Listed form [] [] true
  | cons {a : α} {j : Json} {kept : Bool} {as : List α} {js : List Json} {others : Bool} :
    form a j kept → Listed form as js others → Listed form (a :: as) (j :: js) (kept && others)

/-- Decoding `j` gives `a` if `kept` holds, and otherwise reports a wrong type. -/
def Decoder.Takes (decoder : Decoder α) (a : α) (j : Json) (kept : Bool) : Prop :=
  decoder j = if kept then .ok a else .error .invalidType

namespace Decoder

theorem Takes.map {decoder : Decoder α} {a : α} {j : Json} {kept : Bool}
    (takes : decoder.Takes a j kept) (f : α → β) :
    Takes (fun j => f <$> decoder j) (f a) j kept := by
  rw [Takes, takes]
  cases kept <;> rfl

theorem natural_integer {n : Int} (fits : 0 ≤ n ∧ n < UInt64.size) :
    natural (.integer n) = .ok n.toNat := by
  rw [natural]
  exact if_pos fits

theorem natural_takes {n : Nat} (fits : n < UInt64.size) : natural.Takes n (.integer n) true :=
  natural_integer ⟨Int.natCast_nonneg n, Int.ofNat_lt.2 fits⟩

theorem uint64_takes (n : UInt64) : uint64.Takes n (.integer n.toNat) true := by
  have takes := (natural_takes n.toNat_lt).map UInt64.ofNat
  rwa [UInt64.ofNat_toNat] at takes

theorem int64_takes (i : Int64) : int64.Takes i (.integer i.toInt) true := by
  have least : Int64.minValue.toInt ≤ i.toInt := Int64.le_iff_toInt_le.1 i.minValue_le
  have greatest : i.toInt ≤ Int64.maxValue.toInt := Int64.le_iff_toInt_le.1 i.le_maxValue
  have takes : int64 (.integer i.toInt) = .ok (Int64.ofInt i.toInt) := if_pos ⟨least, greatest⟩
  rwa [Int64.ofInt_toInt] at takes

theorem text_takes (s : String) : text.Takes s (.text s) true := rfl

theorem boolean_takes (b : Bool) : boolean.Takes b (.boolean b) true := rfl

theorem enumeration_takes {all : List α} {tag : α → String} {a : α}
    (tags : (all.map tag).Nodup) (mem : a ∈ all) :
    (enumeration all tag).Takes a (.text (tag a)) true := by
  have found : all.find? (fun b => tag b == tag a) = some a := by
    induction all with
    | nil => cases mem
    | cons b all ih =>
      obtain ⟨new, rest⟩ := List.nodup_cons.1 tags
      rcases List.mem_cons.1 mem with rfl | later
      · exact List.find?_cons_of_pos (beq_self_eq_true _)
      · rw [List.find?_cons_of_neg, ih rest later]
        intro same
        exact new (beq_iff_eq.1 same ▸ List.mem_map_of_mem later)
  simp only [Takes, enumeration, variant, bind, Except.bind, found]
  rfl

theorem list_takes {form : α → Json → Bool → Prop} {item : Decoder α} {as : List α}
    {js : List Json} {kept : Bool} (listed : Listed form as js kept)
    (each : ∀ a ∈ as, ∀ j ∈ js, ∀ kept, form a j kept → item.Takes a j kept) :
    (list item).Takes as (.array js) kept := by
  change js.mapM item = _
  induction listed with
  | nil => rfl
  | @cons a j kept as js others head tail ih =>
    have first := each a (List.mem_cons_self ..) j (List.mem_cons_self ..) kept head
    have rest := ih fun b hb i hi =>
      each b (List.mem_cons_of_mem _ hb) i (List.mem_cons_of_mem _ hi)
    rw [List.mapM_cons, first, rest]
    cases kept <;> cases others <;> rfl

def TakesBelow (decoder : Decoder α) (form : α → Json → Bool → Prop) (good : α → Prop)
    (depth : Nat) : Prop :=
  ∀ {a j kept}, form a j kept → good a → j.depth < depth → decoder.Takes a j kept

section
variable {form : α → Json → Bool → Prop} {good : α → Prop}

theorem TakesBelow.list {item : Decoder α} {depth : Nat}
    (takes : item.TakesBelow form good depth) {as : List α} {js : List Json} {kept : Bool}
    (listed : Listed form as js kept) (each : ∀ a ∈ as, good a)
    (below : (Json.array js).depth < depth) : (Decoder.list item).Takes as (.array js) kept :=
  list_takes listed fun a mem _ there _ formed =>
    takes formed (each a mem) (Nat.lt_trans (Json.depth_lt_of_item there) below)

/-- A decoder that hands nested values to itself takes what one step takes, given that the values
less deep than what is decoded are taken. -/
theorem recursive_takes {body : Decoder α → Decoder α}
    (step : ∀ {self a j kept}, TakesBelow self form good j.depth → form a j kept → good a →
      (body self).Takes a j kept)
    {a : α} {j : Json} {kept : Bool} (formed : form a j kept) (fine : good a) :
    (recursive body).Takes a j kept := by
  have within : ∀ depth, (nested body depth).TakesBelow form good depth := by
    intro depth
    induction depth with
    | zero => exact fun _ _ below => (Nat.not_lt_zero _ below).elim
    | succ depth ih =>
      intro a j kept formed fine below
      refine step (fun inner fine less => ih inner fine ?_) formed fine
      omega
  exact within (j.depth + 1) formed fine (Nat.lt_succ_self _)

end
end Decoder

def Record.Holds (position : Nat) (fields : List (String × Json)) : Record → Prop
  | .named members => ∀ field ∈ fields, members.lookup field.1 = some field.2
  | .positional items => fields.map Prod.snd <+: items.drop position

theorem Record.Holds.split {position : Nat} {fields others : List (String × Json)}
    {record : Record} (holds : record.Holds position (fields ++ others)) :
    record.Holds position fields ∧ record.Holds (position + fields.length) others := by
  cases record with
  | named members =>
    exact ⟨fun field mem => holds field (List.mem_append_left _ mem),
      fun field mem => holds field (List.mem_append_right _ mem)⟩
  | positional items =>
    obtain ⟨rest, eq⟩ := holds
    rw [List.map_append, List.append_assoc] at eq
    refine ⟨⟨_, eq⟩, rest, ?_⟩
    rw [← List.drop_drop, ← eq, List.drop_left' (List.length_map ..)]

theorem lookup_of_mem {fields : List (String × α)} (names : (fields.map Prod.fst).Nodup)
    {field : String × α} (mem : field ∈ fields) : fields.lookup field.1 = some field.2 := by
  induction fields with
  | nil => cases mem
  | cons f fields ih =>
    obtain ⟨new, rest⟩ := List.nodup_cons.1 names
    rcases List.mem_cons.1 mem with rfl | later
    · exact List.lookup_cons_self
    · have other : (field.1 == f.1) = false :=
        beq_false_of_ne fun same => new (same ▸ List.mem_map_of_mem later)
      rw [List.lookup_cons, other, ih rest later]

namespace Fields

/-- Reading gives `a` from every record that has the fields if `kept` holds, and otherwise finds
a value of a wrong type. -/
structure Takes (reader : Fields α) (a : α) (fields : List (String × Json)) (kept : Bool) :
    Prop where
  names : reader.names = fields.map Prod.fst
  read : ∀ {position record}, record.Holds position fields →
    ∃ place, reader.read position record =
      if kept then .ok a else .error (.bad place .invalidType)

theorem one_takes {value : Decoder α} {a : α} {j : Json} {kept : Bool}
    (takes : value.Takes a j kept) (name : String) (absent : Option α) :
    (one name value absent).Takes a [(name, j)] kept where
  names := rfl
  read {position record} holds := by
    cases record with
    | named members =>
      have found : members.lookup name = some j := holds (name, j) (List.mem_singleton_self _)
      refine ⟨name, ?_⟩
      simp only [one, found]
      rw [takes]
      cases kept <;> rfl
    | positional items =>
      obtain ⟨rest, eq⟩ := holds
      have found : items[position]? = some j := by
        rw [← List.head?_drop, ← eq]
        rfl
      refine ⟨"", ?_⟩
      simp only [one, found]
      rw [takes]
      cases kept <;> rfl

section
variable {reader : Fields α} {a : α} {fields : List (String × Json)} {kept : Bool}

theorem Takes.and {other : Fields β} {b : β} {others : List (String × Json)} {also : Bool}
    (first : reader.Takes a fields kept) (second : other.Takes b others also) :
    (reader.and other).Takes (a, b) (fields ++ others) (kept && also) where
  names := by rw [List.map_append, ← first.names, ← second.names]; rfl
  read {position record} holds := by
    obtain ⟨here, there⟩ := holds.split
    obtain ⟨p, readFirst⟩ := first.read here
    obtain ⟨q, readSecond⟩ := second.read there
    have length : reader.names.length = fields.length := by rw [first.names, List.length_map]
    simp only [Fields.and, length, readFirst, readSecond]
    -- Of two faults either may be reported, by the places; both are of a wrong type.
    cases kept <;> cases also
    · by_cases less : q < p
      · exact ⟨q, by simp [Fault.both, Fault.first, less]⟩
      · exact ⟨p, by simp [Fault.both, Fault.first, less]⟩
    · exact ⟨p, rfl⟩
    · exact ⟨q, rfl⟩
    · exact ⟨p, rfl⟩

theorem Takes.map (takes : reader.Takes a fields kept) (f : α → β) :
    (reader.map f).Takes (f a) fields kept where
  names := takes.names
  read holds := by
    obtain ⟨place, read⟩ := takes.read holds
    refine ⟨place, ?_⟩
    simp only [Fields.map, read]
    cases kept <;> rfl

theorem Takes.ofMembers (takes : reader.Takes a fields kept)
    (names : (fields.map Prod.fst).Nodup) {members : List (String × Json)}
    (order : members.Perm fields) :
    reader.ofMembers members = if kept then .ok a else .error .invalidType := by
  have holds : (Record.named members).Holds 0 fields := fun field mem =>
    lookup_of_mem ((order.map Prod.fst).nodup_iff.2 names) (order.mem_iff.2 mem)
  obtain ⟨place, read⟩ := takes.read holds
  rw [Fields.ofMembers, read]
  cases kept <;> rfl

theorem Takes.ofItems (takes : reader.Takes a fields kept) :
    reader.ofItems (fields.map Prod.snd) = if kept then .ok a else .error .invalidType := by
  have holds : (Record.positional (fields.map Prod.snd)).Holds 0 fields := List.prefix_rfl
  obtain ⟨place, read⟩ := takes.read holds
  have length : ¬ reader.names.length < (fields.map Prod.snd).length := by
    rw [takes.names, List.length_map, List.length_map]
    exact Nat.lt_irrefl _
  rw [Fields.ofItems, read]
  cases kept
  · rfl
  · exact if_neg length

section
variable {whole : Bool} {j : Json}

theorem Takes.record (takes : reader.Takes a fields kept)
    (names : (fields.map Prod.fst).Nodup) (written : Written fields whole j) :
    reader.record.Takes a j kept := by
  cases written with
  | object order => exact takes.ofMembers names order
  | array => exact takes.ofItems

theorem Takes.members (takes : reader.Takes a fields kept)
    (names : (fields.map Prod.fst).Nodup) (written : Written fields whole j) :
    reader.members.Takes a j (whole && kept) := by
  cases written with
  | object order => exact takes.ofMembers names order
  | array => rfl

theorem unknown_of_known {known : List String} {members : List (String × Json)}
    (all : ∀ field ∈ members, field.1 ∈ known) : unknown known members = none := by
  rw [unknown]
  induction members with
  | nil => rfl
  | cons field members ih =>
    have there := all field (List.mem_cons_self ..)
    have rest := ih fun other mem => all other (List.mem_cons_of_mem _ mem)
    rw [List.map_cons, List.foldr_cons, rest, if_pos (List.contains_iff_mem.2 there)]

theorem Takes.strict (takes : reader.Takes a fields kept)
    (names : (fields.map Prod.fst).Nodup) (written : Written fields whole j) :
    reader.strict.Takes a j kept := by
  cases written with
  | @object members order =>
    have known : unknown reader.names members = none := unknown_of_known fun field mem =>
      takes.names ▸ List.mem_map_of_mem (order.mem_iff.1 mem)
    change Fields.ofMembers _ members = _
    rw [known]
    exact takes.ofMembers names order
  | array => exact takes.ofItems

end
end
end Fields
end QueryPlan
