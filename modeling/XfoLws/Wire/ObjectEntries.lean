import XfoLws.Wire.ReadObject

/-!
# Entries of an object, in any order

A format says which texts encode a list of entries; a walk is what its reader
does between them.  In every format with a walk an object is read exactly when
its entries fit the fields, whatever their order, with whatever entries under
other keys, and whatever the targets held.
-/

namespace XfoLws.Wire

open Parsing
open Msgpack (KeyMap SameKey maxReadDepth)

/-- A format, with its encoded objects. -/
structure Format where
  Counts : Type
  Thrown : Type
  reader : ObjectReader Counts Thrown
  depth : Counts → ℕ
  /-- The reader may stand before a value of this text. -/
  ready : Counts → Bytes → Prop
  /-- What the reader counts behind a value. -/
  after : Counts → Counts
  /-- What may follow a value. -/
  ends : Bytes → Prop
  integerKeys : Bool
  Entry : Type
  /-- The key of the entry is that of a field. -/
  names : Entry → KeyMap → Bool
  value : Entry → Bytes
  scalar : Entry → Prop
  encodes : List Entry → Bytes → Prop

namespace Format

variable {format : Format} {n : ℕ} {α : Fin n → Type}

/-- What a text means to a reader of values at a depth; `none` is an error.
Neither the target nor what surrounds the value matters. -/
def Means {β : Type} (format : Format) (depth : ℕ)
    (unpack : β → Parser Byte format.Counts format.Thrown β) (text : Bytes)
    (meaning : Option β) : Prop :=
  ∀ counts target rest, format.depth counts = depth →
    format.ready counts text → format.ends rest →
    match meaning with
    | some value => (unpack target).run (counts, text ++ rest) =
        .ok (value, (format.after counts, rest))
    | none => ∃ failure, (unpack target).run (counts, text ++ rest) =
        .error failure

/-- The field of an entry. -/
def fieldOf (format : Format) (map : Fin n → KeyMap) (entry : format.Entry) :
    Option (Fin n) :=
  (List.finRange n).find? fun index => format.names entry (map index)

/-- The values under known keys. -/
def known (format : Format) (map : Fin n → KeyMap)
    (entries : List format.Entry) : List (Fin n × Bytes) :=
  entries.filterMap fun entry =>
    (format.fieldOf map entry).map fun index => (index, format.value entry)

/-- The values of one field. -/
def valuesOf (index : Fin n) (values : List (Fin n × Bytes)) : List Bytes :=
  (values.filter fun value => value.1 = index).map Prod.snd

/-- What the reader of a format does between the values of an object. -/
structure Walk (format : Format) where
  /-- In an object that began at `outer` and is followed by `rest`, the reader
  stands before these entries. -/
  At : (outer : format.Counts) → (rest : Bytes) → List format.Entry →
    (state : ℕ) → format.Counts → Bytes → Prop
  same {entry : format.Entry} {left right : KeyMap} :
    format.names entry left = true → format.names entry right = true →
      SameKey format.integerKeys left right
  start {entries : List format.Entry} {text : Bytes} {outer : format.Counts}
    {rest : Bytes} : format.encodes entries text → format.ready outer text →
      format.ends rest → format.depth outer + 1 ≠ maxReadDepth →
      ∃ state inside source,
        format.reader.startObject.run (outer, text ++ rest) =
          .ok (state, (inside, source)) ∧
        At outer rest entries state inside source
  tooDeep {entries : List format.Entry} {text : Bytes} {outer : format.Counts}
    {rest : Bytes} : format.encodes entries text → format.ready outer text →
      format.depth outer + 1 = maxReadDepth →
      ∃ failure, format.reader.startObject.run (outer, text ++ rest) =
        .error failure
  short {outer inside : format.Counts} {rest source : Bytes} {state : ℕ}
    {entries : List format.Entry} : At outer rest entries state inside source →
      entries.length ≤ source.length
  last {outer inside : format.Counts} {rest source : Bytes} {state : ℕ} :
    At outer rest [] state inside source → ∃ behind,
      ∀ {n : ℕ} (map : Fin n → KeyMap),
      (format.reader.key map state).run (inside, source) =
        .ok (none, (behind, rest)) ∧
      format.reader.endObject.run (behind, rest) =
        .ok ((), (format.after outer, rest))
  found {outer inside : format.Counts} {rest source : Bytes} {state : ℕ}
    {entry : format.Entry} {entries : List format.Entry} {n : ℕ}
    {map : Fin n → KeyMap} {index : Fin n} :
    At outer rest (entry :: entries) state inside source →
      format.names entry (map index) = true →
      (∀ other, format.names entry (map other) = true → other = index) →
      ∃ left before behind, (format.reader.key map state).run (inside, source) =
          .ok (some (left, index), (before, format.value entry ++ behind)) ∧
        format.depth before = format.depth outer + 1 ∧
        format.ready before (format.value entry) ∧ format.ends behind ∧
        At outer rest entries left (format.after before) behind
  skipped {outer inside : format.Counts} {rest source : Bytes} {state : ℕ}
    {entry : format.Entry} {entries : List format.Entry} {n : ℕ}
    {map : Fin n → KeyMap} :
    At outer rest (entry :: entries) state inside source →
      (∀ index, format.names entry (map index) = false) → format.scalar entry →
      ∃ left behind tail, At outer rest entries left behind tail ∧
        (format.reader.key map state).run (inside, source) =
          (format.reader.key map left).run (behind, tail)

/-! ## Values of the fields -/

section Values

variable {C ε : Type} {fields : ∀ index, Field C ε (α index)}
  {decode : ∀ index, Bytes → Option (α index)}
  {values : List (Fin n × Bytes)}

/-- Each required field has one value, each other field at most one, and the
values are understood. -/
structure Fits (fields : ∀ index, Field C ε (α index))
    (decode : ∀ index, Bytes → Option (α index))
    (values : List (Fin n × Bytes)) : Prop where
  required : ∀ index, (fields index).isRequired = true →
    (valuesOf index values).length = 1
  once : ∀ index, (valuesOf index values).length ≤ 1
  decodes : ∀ index, ∀ text ∈ valuesOf index values, decode index text ≠ none

/-- The targets hold the values, and what is reset where there is none. -/
structure Filled (fields : ∀ index, Field C ε (α index))
    (decode : ∀ index, Bytes → Option (α index))
    (values : List (Fin n × Bytes)) (target : ∀ index, α index) : Prop where
  present : ∀ index, ∀ text ∈ valuesOf index values,
    decode index text = some (target index)
  absent : ∀ index, valuesOf index values = [] →
    (fields index).omitted = some (target index)

theorem Filled.unique {left right : ∀ index, α index}
    (lefts : Filled fields decode values left)
    (rights : Filled fields decode values right) : left = right := by
  funext index
  cases found : valuesOf index values with
  | nil =>
      exact Option.some.inj
        ((lefts.absent index found).symm.trans (rights.absent index found))
  | cons text texts =>
      have member : text ∈ valuesOf index values := by
        rw [found]
        exact List.mem_cons_self
      exact Option.some.inj ((lefts.present index text member).symm.trans
        (rights.present index text member))

theorem valuesOf_perm {others : List (Fin n × Bytes)}
    (same : values.Perm others) (index : Fin n) :
    (valuesOf index values).Perm (valuesOf index others) :=
  (same.filter _).map _

theorem Fits.perm {others : List (Fin n × Bytes)}
    (fits : Fits fields decode values) (same : values.Perm others) :
    Fits fields decode others := by
  have each := valuesOf_perm same
  refine ⟨?_, ?_, ?_⟩
  · intro index required
    rw [← (each index).length_eq]
    exact fits.required index required
  · intro index
    rw [← (each index).length_eq]
    exact fits.once index
  · intro index text member
    exact fits.decodes index text ((each index).mem_iff.mpr member)

theorem Filled.perm {others : List (Fin n × Bytes)}
    {target : ∀ index, α index} (filled : Filled fields decode values target)
    (same : values.Perm others) : Filled fields decode others target := by
  have each := valuesOf_perm same
  refine ⟨?_, ?_⟩
  · intro index text member
    exact filled.present index text ((each index).mem_iff.mpr member)
  · intro index none
    refine filled.absent index (List.Perm.eq_nil ?_)
    rw [← none]
    exact each index

theorem valuesOf_cons (index next : Fin n) (text : Bytes) :
    valuesOf index ((next, text) :: values) =
      if next = index then text :: valuesOf index values
      else valuesOf index values := by
  unfold valuesOf
  rw [List.filter_cons]
  by_cases same : next = index <;> simp [same]

/-- What the trackers make of the values. -/
def readAll (decode : ∀ index, Bytes → Option (α index)) :
    Trackers α → List (Fin n × Bytes) → Option (Trackers α)
  | trackers, [] => some trackers
  | trackers, (index, text) :: values =>
      if trackers.read index then none
      else (decode index text).bind fun value =>
        readAll decode (trackers.store index value) values

/-- The trackers behind the values. -/
structure Tracked (decode : ∀ index, Bytes → Option (α index))
    (before : Trackers α) (values : List (Fin n × Bytes))
    (after : Trackers α) (index : Fin n) : Prop where
  absent : valuesOf index values = [] →
    after.read index = before.read index ∧
      after.target index = before.target index
  present : valuesOf index values ≠ [] →
    before.read index = false ∧ after.read index = true ∧
      ∃ text, valuesOf index values = [text] ∧
        decode index text = some (after.target index)

theorem readAll_tracked {before after : Trackers α}
    (read : readAll decode before values = some after) (index : Fin n) :
    Tracked decode before values after index := by
  induction values generalizing before with
  | nil =>
      cases read
      exact ⟨fun _ => ⟨rfl, rfl⟩, fun some => absurd rfl some⟩
  | cons value values induction =>
      obtain ⟨next, text⟩ := value
      rw [readAll] at read
      split at read
      · cases read
      · rename_i fresh
        obtain ⟨found, decoded, read⟩ := Option.bind_eq_some_iff.mp read
        have later := induction read
        by_cases same : next = index
        · subst same
          have written : (before.store next found).read next = true := by
            rw [Trackers.store_read, if_pos rfl]
          have alone : valuesOf next values = [] := by
            by_contra more
            exact absurd written (by rw [(later.present more).1]; nofun)
          have kept := later.absent alone
          rw [written, Trackers.store_target] at kept
          rw [Bool.not_eq_true] at fresh
          refine ⟨fun none => ?_, fun _ => ⟨fresh, kept.1, text, ?_, ?_⟩⟩
          · rw [valuesOf_cons, if_pos rfl] at none
            cases none
          · rw [valuesOf_cons, if_pos rfl, alone]
          · rw [kept.2]
            exact decoded
        · have readSame : (before.store next found).read index =
              before.read index := by
            rw [Trackers.store_read, if_neg (Ne.symm same)]
          have targetSame := before.store_target_of_ne found (Ne.symm same)
          obtain ⟨absent, present⟩ := later
          rw [readSame, targetSame] at absent
          rw [readSame] at present
          refine ⟨?_, ?_⟩ <;> rw [valuesOf_cons, if_neg same]
          · exact absent
          · exact present

theorem readAll_isSome {before : Trackers α}
    (fresh : ∀ index, before.read index = true → valuesOf index values = [])
    (once : ∀ index, (valuesOf index values).length ≤ 1)
    (decodes : ∀ index, ∀ text ∈ valuesOf index values,
      decode index text ≠ none) :
    ∃ after, readAll decode before values = some after := by
  induction values generalizing before with
  | nil => exact ⟨before, rfl⟩
  | cons value values induction =>
      obtain ⟨next, text⟩ := value
      have first : valuesOf next ((next, text) :: values) =
          text :: valuesOf next values := by
        rw [valuesOf_cons, if_pos rfl]
      have unread : ¬ before.read next = true := by
        intro read
        rw [fresh next read] at first
        cases first
      have member : text ∈ valuesOf next ((next, text) :: values) := by
        rw [first]
        exact List.mem_cons_self
      obtain ⟨found, decoded⟩ :=
        Option.ne_none_iff_exists'.mp (decodes next text member)
      have alone : valuesOf next values = [] := by
        have one := once next
        rw [first, List.length_cons] at one
        exact List.eq_nil_of_length_eq_zero (by lia)
      have fewer : ∀ index, valuesOf index values =
          valuesOf index ((next, text) :: values) ∨ index = next := by
        intro index
        by_cases same : next = index
        · exact .inr same.symm
        · rw [valuesOf_cons, if_neg same]
          exact .inl rfl
      obtain ⟨after, read⟩ := @induction (before.store next found) (by
          intro index read
          rcases fewer index with same | rfl
          · rw [Trackers.store_read] at read
            split at read
            · rename_i equal
              rw [equal]
              exact alone
            · rw [same]
              exact fresh index read
          · exact alone)
        (by
          intro index
          rcases fewer index with same | rfl
          · rw [same]
            exact once index
          · rw [alone]
            exact Nat.zero_le 1)
        (by
          intro index other listed
          rcases fewer index with same | rfl
          · rw [same] at listed
            exact decodes index other listed
          · rw [alone] at listed
            cases listed)
      refine ⟨after, ?_⟩
      rw [readAll, if_neg unread, decoded]
      exact read

end Values

/-! ## The loop over the keys -/

section Loop

variable {fields : ∀ index, Field format.Counts format.Thrown (α index)}
  {decode : ∀ index, Bytes → Option (α index)}

/-- No two fields are written under one key. -/
def DistinctKeys (format : Format)
    (fields : ∀ index, Field format.Counts format.Thrown (α index)) : Prop :=
  ∀ left right, SameKey format.integerKeys (fields left).key
    (fields right).key → left = right

/-- A value under a known key means something to its field, and any other
value is a scalar. -/
structure Readable (format : Format) (depth : ℕ)
    (fields : ∀ index, Field format.Counts format.Thrown (α index))
    (decode : ∀ index, Bytes → Option (α index)) (entry : format.Entry) :
    Prop where
  means : ∀ index, format.names entry (fields index).key = true →
    format.Means depth (fields index).unpack (format.value entry)
      (decode index (format.value entry))
  scalar : (∀ index, format.names entry (fields index).key = false) →
    format.scalar entry

def requiredValues
    (fields : ∀ index, Field format.Counts format.Thrown (α index))
    (values : List (Fin n × Bytes)) : ℕ :=
  values.countP fun value => (fields value.1).isRequired

theorem known_cons (map : Fin n → KeyMap) (entry : format.Entry)
    (entries : List format.Entry) :
    format.known map (entry :: entries) =
      match format.fieldOf map entry with
      | none => format.known map entries
      | some index =>
          (index, format.value entry) :: format.known map entries := by
  unfold known
  rw [List.filterMap_cons]
  cases format.fieldOf map entry <;> rfl

private theorem tryReads_run {next : Fin n} (trackers : Trackers α)
    {depth : ℕ} {text : Bytes} {meaning : Option (α next)}
    (means : format.Means depth (fields next).unpack text meaning)
    {counts : format.Counts} {rest : Bytes}
    (level : format.depth counts = depth) (ready : format.ready counts text)
    (ends : format.ends rest) :
    match (if trackers.read next then none else meaning) with
    | some value => (tryReads format.reader fields next trackers).run
          (counts, text ++ rest) =
        .ok ((1 + (fields next).isRequired.toNat, trackers.store next value),
          (format.after counts, rest))
    | none => ∃ failure, (tryReads format.reader fields next trackers).run
        (counts, text ++ rest) = .error failure := by
  have read := means counts (trackers.target next) rest level ready ends
  rw [tryReads_eq, tryRead, if_neg (not_not.mpr rfl)]
  by_cases twice : trackers.read next = true
  · rw [if_pos twice, if_pos twice]
    exact ⟨_, rfl⟩
  · rw [if_neg twice, if_neg twice]
    cases meaning with
    | none =>
        obtain ⟨failure, failed⟩ := read
        exact ⟨failure, run_bind_error failed⟩
    | some value => exact run_bind_ok read

/-- The loop makes of the entries what the trackers make of their values. -/
theorem Walk.readFields_run (walk : Walk format)
    (distinct : format.DistinctKeys fields) {entries : List format.Entry}
    {outer inside : format.Counts} {rest source : Bytes} {turns state : ℕ}
    (at_ : walk.At outer rest entries state inside source)
    (readable : ∀ entry ∈ entries,
      format.Readable (format.depth outer + 1) fields decode entry)
    (enough : entries.length < turns) (required : ℕ)
    (trackers : Trackers α) :
    match readAll decode trackers
      (format.known (keyMap fields) entries) with
    | some after => ∃ behind,
        format.reader.endObject.run (behind, rest) =
          .ok ((), (format.after outer, rest)) ∧
        (readFields format.reader fields turns state required trackers).run
            (inside, source) =
          .ok ((required - requiredValues fields
            (format.known (keyMap fields) entries), after), (behind, rest))
    | none => ∃ failure,
        (readFields format.reader fields turns state required trackers).run
          (inside, source) = .error failure := by
  induction entries generalizing turns state inside source required
    trackers with
  | nil =>
      obtain ⟨turns, rfl⟩ := Nat.exists_eq_add_one_of_ne_zero enough.ne'
      obtain ⟨behind, closes⟩ := walk.last at_
      have closed := closes (keyMap fields)
      exact ⟨behind, closed.2, run_bind_ok closed.1⟩
  | cons entry entries induction =>
      obtain ⟨turns, rfl⟩ := Nat.exists_eq_add_one_of_ne_zero
        (Nat.ne_zero_of_lt enough)
      have read := readable entry List.mem_cons_self
      have others : ∀ other ∈ entries,
          format.Readable (format.depth outer + 1) fields decode other :=
        fun other member => readable other (List.mem_cons_of_mem _ member)
      rw [known_cons]
      cases field : format.fieldOf (keyMap fields) entry with
      | none =>
          have unknown : ∀ index,
              format.names entry (keyMap fields index) = false := by
            intro index
            have missed := List.find?_eq_none.mp field index
              (List.mem_finRange index)
            simpa using missed
          obtain ⟨left, behind, tail, later, skipped⟩ :=
            walk.skipped at_ unknown
              (read.scalar unknown)
          have same : (readFields format.reader fields (turns + 1) state
                required trackers).run (inside, source) =
              (readFields format.reader fields (turns + 1) left required
                trackers).run (behind, tail) := by
            rw [readFields, readFields, StateT.run_bind, StateT.run_bind,
              skipped]
          rw [same]
          exact induction later others (Nat.lt_of_succ_lt enough) required
            trackers
      | some index =>
          have named : format.names entry (keyMap fields index) = true := by
            simpa using List.find?_some field
          obtain ⟨left, before, behind, found, level, ready, ends, later⟩ :=
            walk.found at_ named fun other otherNamed =>
              distinct other index (walk.same otherNamed named)
          have tried := tryReads_run trackers
            (read.means index named) level ready ends
          have split : readAll decode trackers
              ((index, format.value entry) ::
                format.known (keyMap fields) entries) =
              (if trackers.read index then none
                else decode index (format.value entry)).bind fun value =>
                  readAll decode (trackers.store index value)
                    (format.known (keyMap fields) entries) := by
            rw [readAll]
            split <;> rfl
          dsimp only
          rw [split]
          cases outcome : (if trackers.read index then none
              else decode index (format.value entry)) with
          | none =>
              rw [outcome] at tried
              obtain ⟨failure, failed⟩ := tried
              exact ⟨failure, readFields_failed found failed⟩
          | some value =>
              rw [outcome] at tried
              rw [readFields_stored found tried]
              have next := induction later others
                (Nat.lt_of_succ_lt_succ enough)
                (required - (fields index).isRequired.toNat)
                (trackers.store index value)
              have counted : requiredValues fields
                  ((index, format.value entry) ::
                    format.known (keyMap fields) entries) =
                  (fields index).isRequired.toNat + requiredValues fields
                    (format.known (keyMap fields) entries) := by
                unfold requiredValues
                rw [List.countP_cons]
                cases (fields index).isRequired
                · exact (Nat.zero_add _).symm
                · exact Nat.add_comm _ _
              rw [counted, Nat.sub_add_eq]
              exact next

/-! ## The object -/

private theorem requiredValues_eq (values : List (Fin n × Bytes)) :
    requiredValues fields values =
      ∑ index, (fields index).isRequired.toNat *
        (valuesOf index values).length := by
  induction values with
  | nil => simp [requiredValues, valuesOf]
  | cons value values induction =>
      obtain ⟨next, text⟩ := value
      have each : ∀ index, (fields index).isRequired.toNat *
          (valuesOf index ((next, text) :: values)).length =
            (fields index).isRequired.toNat *
              (valuesOf index values).length +
            if index = next then (fields index).isRequired.toNat else 0 := by
        intro index
        rw [valuesOf_cons]
        by_cases same : next = index
        · rw [if_pos same, if_pos same.symm, List.length_cons, Nat.mul_succ]
        · rw [if_neg same, if_neg (Ne.symm same), Nat.add_zero]
      rw [Finset.sum_congr rfl fun index _ => each index,
        Finset.sum_add_distrib, ← induction, Finset.sum_ite_eq' Finset.univ]
      unfold requiredValues
      rw [List.countP_cons, if_pos (Finset.mem_univ next)]
      cases (fields next).isRequired <;> rfl

/-- The count of missing fields is exact. -/
theorem required_missing_iff
    (fields : ∀ index, Field format.Counts format.Thrown (α index))
    {values : List (Fin n × Bytes)}
    (once : ∀ index, (valuesOf index values).length ≤ 1) :
    requiredFields fields - requiredValues fields values = 0 ↔
      ∀ index, (fields index).isRequired = true →
        (valuesOf index values).length = 1 := by
  have all : requiredFields fields =
      ∑ index, (fields index).isRequired.toNat :=
    (Fin.sum_univ_def _).symm
  have within : ∀ index ∈ (Finset.univ : Finset (Fin n)),
      (fields index).isRequired.toNat * (valuesOf index values).length ≤
        (fields index).isRequired.toNat :=
    fun index _ => (Nat.mul_le_mul_left _ (once index)).trans_eq
      (Nat.mul_one _)
  have equal := Finset.sum_eq_sum_iff_of_le within
  have below := Finset.sum_le_sum within
  rw [all, requiredValues_eq, Nat.sub_eq_zero_iff_le]
  constructor
  · intro enough index required
    have same := equal.mp (below.antisymm enough) index (Finset.mem_univ index)
    rw [required] at same
    simpa using same
  · intro single
    refine (equal.mpr ?_).ge
    intro index _
    cases required : (fields index).isRequired with
    | false => exact Nat.zero_mul _
    | true => rw [single index required, Nat.mul_one]

private theorem start_fresh (target : ∀ index, α index)
    {values : List (Fin n × Bytes)} (index : Fin n)
    (read : (Trackers.start target).read index = true) :
    valuesOf index values = [] := nomatch read

private theorem readAll_fits {target : ∀ index, α index}
    {values : List (Fin n × Bytes)} {after : Trackers α}
    (read : readAll decode (Trackers.start target) values = some after) :
    (∀ index, (valuesOf index values).length ≤ 1) ∧
      ∀ index, ∀ text ∈ valuesOf index values,
        decode index text ≠ none := by
  have tracked := readAll_tracked read
  refine ⟨fun index => ?_, fun index text member => ?_⟩
  · by_cases none : valuesOf index values = []
    · rw [none]
      exact Nat.zero_le 1
    · obtain ⟨-, -, text, single, -⟩ := (tracked index).present none
      rw [single]
      rfl
  · have some : valuesOf index values ≠ [] := List.ne_nil_of_mem member
    obtain ⟨-, -, other, single, decoded⟩ := (tracked index).present some
    rw [single] at member
    rw [List.mem_singleton.mp member, decoded]
    exact Option.some_ne_none _

private theorem resetOmitted_filled {target : ∀ index, α index}
    {values : List (Fin n × Bytes)} {after : Trackers α}
    (read : readAll decode (Trackers.start target) values = some after)
    (required : ∀ index, (fields index).isRequired = true →
      (valuesOf index values).length = 1) :
    Filled fields decode values (resetOmitted fields after) := by
  have tracked := readAll_tracked read
  refine ⟨fun index text member => ?_, fun index none => ?_⟩
  · have some : valuesOf index values ≠ [] := List.ne_nil_of_mem member
    obtain ⟨-, stored, other, single, decoded⟩ :=
      (tracked index).present some
    rw [single] at member
    rw [List.mem_singleton.mp member, decoded, resetOmitted, stored]
    simp
  · obtain ⟨unread, -⟩ := (tracked index).absent none
    have unread : after.read index = false := unread
    cases omitted : (fields index).omitted with
    | none =>
        have needed : (fields index).isRequired = true := by
          rw [Field.isRequired, omitted]
          rfl
        have single := required index needed
        rw [none] at single
        cases single
    | some value =>
        have free : (fields index).isRequired = false := by
          rw [Field.isRequired, omitted]
          rfl
        rw [resetOmitted, free, unread, Field.resetField, omitted]
        rfl

/-- An object is read when its values fit the fields, and the targets then
hold what the values mean. -/
theorem Walk.object_run (walk : Walk format)
    (distinct : format.DistinctKeys fields) {entries : List format.Entry}
    {text rest : Bytes} {outer : format.Counts}
    (encoded : format.encodes entries text)
    (readable : ∀ entry ∈ entries,
      format.Readable (format.depth outer + 1) fields decode entry)
    (ready : format.ready outer text) (ends : format.ends rest)
    (target : ∀ index, α index) :
    (format.depth outer + 1 ≠ maxReadDepth ∧
        Fits fields decode (format.known (keyMap fields) entries) →
      ∃ result,
        Filled fields decode (format.known (keyMap fields) entries) result ∧
        (object format.reader fields target).run (outer, text ++ rest) =
          .ok (result, (format.after outer, rest))) ∧
    (¬ (format.depth outer + 1 ≠ maxReadDepth ∧
        Fits fields decode (format.known (keyMap fields) entries)) →
      ∃ failure,
        (object format.reader fields target).run (outer, text ++ rest) =
          .error failure) := by
  by_cases deep : format.depth outer + 1 = maxReadDepth
  · obtain ⟨failure, failed⟩ := walk.tooDeep encoded ready deep
    exact ⟨fun shallow => absurd deep shallow.1,
      fun _ => ⟨failure, run_bind_error failed⟩⟩
  obtain ⟨state, inside, source, started, at_⟩ :=
    walk.start encoded ready ends deep
  have looped := walk.readFields_run distinct at_ readable
    (Nat.lt_succ_of_le (walk.short at_)) (requiredFields fields)
    (Trackers.start target)
  have run : (object format.reader fields target).run (outer, text ++ rest) =
      (do
        let result ← readFields format.reader fields
          (source.length + 1) state (requiredFields fields)
          (Trackers.start target)
        if result.1 ≠ 0 then
          throw (format.reader.throws ⟨.missingKey, "",
            (List.finRange n).findSome? (nameIfMissing fields result.2)⟩)
        else do
          format.reader.endObject
          return resetOmitted fields result.2 :
        Parser Byte format.Counts format.Thrown (∀ index, α index)).run
          (inside, source) :=
    run_bind_ok started
  rw [run, and_iff_right deep]
  cases all : readAll decode (Trackers.start target)
      (format.known (keyMap fields) entries) with
  | none =>
      rw [all] at looped
      obtain ⟨failure, failed⟩ := looped
      refine ⟨fun fits => ?_, fun _ => ⟨failure, run_bind_error failed⟩⟩
      obtain ⟨after, read⟩ := readAll_isSome
        (start_fresh target) fits.once fits.decodes
      rw [all] at read
      cases read
  | some after =>
      rw [all] at looped
      obtain ⟨behind, closed, looped⟩ := looped
      obtain ⟨once, decodes⟩ := readAll_fits all
      have missing := required_missing_iff fields once
      rw [run_bind_ok looped]
      dsimp only
      by_cases required : requiredFields fields - requiredValues fields
          (format.known (keyMap fields) entries) = 0
      · rw [if_neg (not_not.mpr required)]
        have required := missing.mp required
        exact ⟨fun _ => ⟨_, resetOmitted_filled all required,
            run_bind_ok closed⟩,
          fun unfit => absurd ⟨required, once, decodes⟩ unfit⟩
      · rw [if_pos required]
        exact ⟨fun fits => absurd (missing.mpr fits.required) required,
          fun _ => ⟨_, rfl⟩⟩

/-- The one result of reading an object. -/
theorem Walk.object_ok_iff (walk : Walk format)
    (distinct : format.DistinctKeys fields) {entries : List format.Entry}
    {text rest : Bytes} {outer : format.Counts}
    (encoded : format.encodes entries text)
    (readable : ∀ entry ∈ entries,
      format.Readable (format.depth outer + 1) fields decode entry)
    (ready : format.ready outer text) (ends : format.ends rest)
    (target : ∀ index, α index)
    (result : (∀ index, α index) × format.Counts × Bytes) :
    (object format.reader fields target).run (outer, text ++ rest) =
        .ok result ↔
      (format.depth outer + 1 ≠ maxReadDepth ∧
        Fits fields decode (format.known (keyMap fields) entries)) ∧
      Filled fields decode (format.known (keyMap fields) entries) result.1 ∧
      result.2 = (format.after outer, rest) := by
  have run := walk.object_run distinct encoded readable ready ends target
  constructor
  · intro ran
    by_cases accepted : format.depth outer + 1 ≠ maxReadDepth ∧
        Fits fields decode (format.known (keyMap fields) entries)
    · obtain ⟨found, filled, same⟩ := run.1 accepted
      cases ran.symm.trans same
      exact ⟨accepted, filled, rfl⟩
    · obtain ⟨failure, failed⟩ := run.2 accepted
      cases ran.symm.trans failed
  · rintro ⟨accepted, filled, same⟩
    obtain ⟨found, others, ran⟩ := run.1 accepted
    rw [ran, others.unique filled, ← same]

end Loop

end Format

end XfoLws.Wire
