import AttestationIntake.Json.Codec
import AttestationIntake.Proofs.Bits.ByteForm
import AttestationIntake.Proofs.Bytes.Fixed
import AttestationIntake.Proofs.Json.Restates
import Mathlib.Data.List.Nodup

/-!
Codecs read back what they write. This is stated for everything that restates what was written,
because that is what passes from the fields of a record to the record: a value inside of it may have
been restated on its own.
-/

namespace AttestationIntake.Codec

/-- What restates what was written of a value is read as that value. -/
def Faithful {α : Type} (codec : Codec α) : Prop :=
  ∀ value json, (codec.encode value).Restates json → codec.decode json = .ok value

/-! ## Leaves and lists -/

theorem word_faithful : word.Faithful := by
  intro value json h
  rw [h.eq_of_natural]
  rfl

theorem text_faithful : text.Faithful := by
  intro value json h
  rw [h.eq_of_text]
  rfl

theorem fixedBytes_faithful (n : Nat) : (fixedBytes n).Faithful := by
  intro b json h
  rw [h.eq_of_text]
  unfold fixedBytes
  simp only [b.ofHex_hex]

theorem bitList_faithful (max : Nat) : (bitList max).Faithful := by
  intro list json h
  -- What is written has the marker in front, which is passed over.
  rw [h.eq_of_text, BitList.decode_text_eq_ok_iff, BitList.toHex, Hex.encode,
    String.toList_ofList]
  exact Hex.codes_digits list.toBytes

theorem list_faithful {α : Type} {item : Codec α} (hitem : item.Faithful) :
    (list item).Faithful := by
  intro values json h
  obtain ⟨items, rfl, hitems⟩ := h.array_inv
  show decodeList item items = .ok values
  clear h
  induction values generalizing items with
  | nil =>
    cases hitems
    rfl
  | cons value values ih =>
    obtain ⟨json, items, hjson, hrest, rfl⟩ := List.forall₂_cons_left_iff.mp hitems
    rw [decodeList, hitem value json hjson, ih items hrest]
    rfl

/-! ## Records -/

namespace Fields

variable {types : List Type}

/-- Every field has a faithful codec. -/
def Faithful : {types : List Type} → Fields types → Prop
  | _, nil => True
  | _, cons _ codec _ rest => codec.Faithful ∧ rest.Faithful

/-- The JSON of every field is read as the value of the field. -/
inductive Reads : {types : List Type} → Fields types → Tuple types → List Json → Prop
  | nil : Reads nil () []
  | cons {α : Type} {types : List Type} {name : String} {codec : Codec α} {absent : Option α}
      {rest : Fields types} {value : α} {values : Tuple types} {json : Json} {jsons : List Json}
      (hvalue : codec.decode json = .ok value) (hrest : Reads rest values jsons) :
      Reads (cons name codec absent rest) (value, values) (json :: jsons)

/-- The slots of the fields whose names are `given`. -/
def filled (given : List String) :
    {types : List Type} → Fields types → Tuple types → Slots types
  | _, nil, _ => ()
  | _, cons name _ _ rest, (value, values) =>
      (if name ∈ given then some value else none, rest.filled given values)

theorem keys_write (fields : Fields types) (tuple : Tuple types) :
    (fields.write tuple).map (·.1) = fields.names := by
  induction fields with
  | nil => rfl
  | cons name codec absent rest ih =>
    obtain ⟨value, values⟩ := tuple
    exact congrArg (name :: ·) (ih values)

theorem Faithful.reads {fields : Fields types} (h : fields.Faithful) {tuple : Tuple types}
    {jsons : List Json}
    (hjsons : List.Forall₂ Json.Restates ((fields.write tuple).map (·.2)) jsons) :
    fields.Reads tuple jsons := by
  induction fields generalizing jsons with
  | nil =>
    cases hjsons
    exact .nil
  | cons name codec absent rest ih =>
    obtain ⟨value, values⟩ := tuple
    obtain ⟨json, jsons, hjson, hrest, rfl⟩ := List.forall₂_cons_left_iff.mp hjsons
    exact .cons (h.1 value json hjson) (ih h.2 hrest)

namespace Reads

variable {fields : Fields types} {tuple : Tuple types} {jsons : List Json}

theorem length_eq (h : fields.Reads tuple jsons) : jsons.length = types.length := by
  induction h with
  | nil => rfl
  | cons _ _ ih => exact congrArg (· + 1) ih

theorem length_names (h : fields.Reads tuple jsons) : fields.names.length = jsons.length := by
  induction h with
  | nil => rfl
  | cons _ _ ih => exact congrArg (· + 1) ih

theorem readItems_eq (h : fields.Reads tuple jsons) (short : DataError) :
    fields.readItems short jsons = .ok tuple := by
  induction h with
  | nil => rfl
  | cons hvalue _ ih =>
    rw [readItems, hvalue, ih]
    rfl

end Reads

theorem noSlots_eq_filled (fields : Fields types) (tuple : Tuple types) :
    fields.noSlots = fields.filled [] tuple := by
  induction fields with
  | nil => rfl
  | cons name codec absent rest ih =>
    obtain ⟨value, values⟩ := tuple
    rw [noSlots, ih values]
    rfl

/-- What is given under another name fills no slot. -/
theorem filled_cons_of_notMem {fields : Fields types} {name : String}
    (h : name ∉ fields.names) (given : List String) (tuple : Tuple types) :
    fields.filled (name :: given) tuple = fields.filled given tuple := by
  induction fields with
  | nil => rfl
  | cons own codec absent rest ih =>
    obtain ⟨value, values⟩ := tuple
    obtain ⟨hne, hrest⟩ := not_or.mp (mt List.mem_cons.mpr h)
    rw [filled, filled, ih hrest values]
    simp only [List.mem_cons, Ne.symm hne, false_or]
    rfl

theorem finish_filled {fields : Fields types} {given : List String}
    (h : ∀ name ∈ fields.names, name ∈ given) (tuple : Tuple types) :
    fields.finish (fields.filled given tuple) = .ok tuple := by
  induction fields with
  | nil => rfl
  | cons name codec absent rest ih =>
    obtain ⟨value, values⟩ := tuple
    have hrest := ih (fun other hother => h other (List.mem_cons_of_mem name hother)) values
    rw [filled, if_pos (h name List.mem_cons_self), finish, Option.some_or, hrest]
    rfl

/-- Reading a field that was not given yet fills its slot and no other. -/
theorem Reads.put?_filled {fields : Fields types} {tuple : Tuple types} {jsons : List Json}
    (h : fields.Reads tuple jsons) (hnames : fields.names.Nodup) {key : String} {json : Json}
    (hentry : (key, json) ∈ fields.names.zip jsons) {given : List String} (hnew : key ∉ given) :
    fields.put? (fields.filled given tuple) key json =
      some (.ok (fields.filled (key :: given) tuple)) := by
  induction h with
  | nil => cases hentry
  | @cons α types name codec absent rest value values json' jsons hvalue _ ih =>
    obtain ⟨hname, hnames⟩ := List.nodup_cons.mp hnames
    rw [filled, filled]
    simp only [put?]
    -- The entry is for this field, or for one of the others, which have other names.
    rcases List.mem_cons.mp hentry with heq | hmem
    · obtain ⟨rfl, rfl⟩ := Prod.mk.inj heq
      rw [if_pos rfl, if_neg hnew, if_pos List.mem_cons_self, filled_cons_of_notMem hname, hvalue]
      rfl
    · have hne : name ≠ key := fun heq => hname (heq ▸ (List.of_mem_zip hmem).1)
      rw [if_neg hne, ih hnames hmem]
      simp only [List.mem_cons, hne, false_or]
      rfl

/-- Entries under names that were not given yet fill their slots, whatever their order. -/
theorem Reads.read_filled {fields : Fields types} {tuple : Tuple types} {jsons : List Json}
    (h : fields.Reads tuple jsons) (hnames : fields.names.Nodup) (strict : Bool)
    {entries : List (String × Json)} (hentries : ∀ entry ∈ entries, entry ∈ fields.names.zip jsons)
    (given : List String) (hkeys : (entries.map (·.1) ++ given).Nodup) :
    ∃ given', fields.read strict entries (fields.filled given tuple) =
        .ok (fields.filled given' tuple) ∧
      ∀ name, name ∈ given' ↔ name ∈ entries.map (·.1) ++ given := by
  induction entries generalizing given with
  | nil => exact ⟨given, rfl, fun name => .rfl⟩
  | cons entry entries ih =>
    obtain ⟨key, json⟩ := entry
    obtain ⟨hentry, hentries⟩ := List.forall_mem_cons.mp hentries
    obtain ⟨hkey, hrest⟩ := List.nodup_cons.mp hkeys
    have hput := h.put?_filled hnames hentry fun hmem => hkey (List.mem_append_right _ hmem)
    obtain ⟨given', hread, hgiven'⟩ :=
      ih hentries (key :: given) (List.nodup_middle.mpr (List.nodup_cons.mpr ⟨hkey, hrest⟩))
    refine ⟨given', ?_, fun name => ?_⟩
    · rw [read, hput]
      exact hread
    · rw [hgiven', List.map_cons, List.cons_append, List.perm_middle.mem_iff]

/-- Every field once, in any order, fills all slots. -/
theorem Reads.read_perm {fields : Fields types} {tuple : Tuple types} {jsons : List Json}
    (h : fields.Reads tuple jsons) (hnames : fields.names.Nodup) (strict : Bool)
    {entries : List (String × Json)} (hperm : entries.Perm (fields.names.zip jsons)) :
    ∃ slots, fields.read strict entries fields.noSlots = .ok slots ∧
      fields.finish slots = .ok tuple := by
  have hkeys : (entries.map (·.1)).Perm fields.names := by
    have hzip := hperm.map (·.1)
    rwa [List.map_fst_zip (Nat.le_of_eq h.length_names)] at hzip
  have hnodup : (entries.map Prod.fst ++ []).Nodup := by
    rw [List.append_nil]
    exact hkeys.nodup_iff.mpr hnames
  obtain ⟨given, hread, hgiven⟩ :=
    h.read_filled hnames strict (fun entry hentry => hperm.mem_iff.mp hentry) [] hnodup
  -- The names that were given are those of all fields, so no slot is left open.
  refine ⟨fields.filled given tuple, ?_, finish_filled (fun name hname => ?_) tuple⟩
  · rw [fields.noSlots_eq_filled tuple, hread]
  · rw [hgiven, List.append_nil]
    exact hkeys.mem_iff.mpr hname

end Fields

/-- A record reads back what it writes if its fields do and no two of them have the same name. -/
theorem record_faithful {α : Type} {types : List Type} {name : String} {strict : Bool}
    {fields : Fields types} {toTuple : α → Tuple types} {ofTuple : Tuple types → α}
    (hnames : fields.names.Nodup) (htuple : ∀ value, ofTuple (toTuple value) = value)
    (hfields : fields.Faithful) : (record name strict fields toTuple ofTuple).Faithful := by
  intro value json h
  obtain ⟨jsons, hjsons, hjson⟩ := h.object_inv
  rw [Fields.keys_write] at hjson
  have hreads := hfields.reads hjsons
  -- The fields stand under their names in some order, or alone in theirs.
  rcases hjson with ⟨entries, rfl, hperm⟩ | rfl
  · obtain ⟨slots, hread, hfinish⟩ := hreads.read_perm hnames strict hperm
    simp only [record, hread, hfinish, bind, Except.bind]
    exact congrArg Except.ok (htuple value)
  · simp only [record, hreads.readItems_eq, hreads.length_eq, Nat.lt_irrefl, if_false, bind,
      Except.bind]
    exact congrArg Except.ok (htuple value)

/-- What a codec writes of a value is read as that value, also when it has been restated, and no two
values are written alike. -/
structure RoundTrips {α : Type} (codec : Codec α) : Prop where
  reads_back : ∀ value, codec.decode (codec.encode value) = .ok value
  reads_restated : ∀ value json, (codec.encode value).Restates json → codec.decode json = .ok value
  injective : Function.Injective codec.encode

theorem Faithful.roundTrips {α : Type} {codec : Codec α} (h : codec.Faithful) :
    codec.RoundTrips := by
  have hback : ∀ value, codec.decode (codec.encode value) = .ok value :=
    fun value => h value _ (.same _)
  -- One JSON value is read as one value only.
  refine ⟨hback, h, fun value value' heq => ?_⟩
  have hread := hback value
  rw [heq, hback value'] at hread
  exact (Except.ok.inj hread).symm

end AttestationIntake.Codec
