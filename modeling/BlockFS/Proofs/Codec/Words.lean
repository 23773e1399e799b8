import BlockFS.LittleEndian

/-!
Words inside longer records. A record that is a concatenation of encoded words gives each of them
back where it stands, and words that stand side by side in a record spell the bytes from which they
were read.
-/

set_option autoImplicit false
set_option relaxedAutoImplicit false

namespace BlockFS.LittleEndian

theorem capacity_two : capacity 2 = 65536 := by decide

theorem capacity_four : capacity 4 = 4294967296 := by decide

theorem decode_lt_capacity (bytes : List UInt8) : decode bytes < capacity bytes.length := by
  induction bytes with
  | nil => simp [decode, capacity]
  | cons byte rest ih =>
    have hbyte := byte.toNat_lt
    simp only [decode, List.length_cons, capacity]
    omega

theorem decode_encode_of_lt {width value : Nat} (h : value < capacity width) :
    decode (encode width value) = value := by
  rw [decode_encode, Nat.mod_eq_of_lt h]

@[simp] theorem toList_bytes (width value : Nat) :
    (bytes width value).toList = encode width value := by
  simp [bytes, Vector.toList]

theorem word_eq {n : Nat} (record : Vector UInt8 n) (start width : Nat) :
    word record start width = decode ((record.toList.drop start).take width) := by
  rw [word, Vector.toList_extract, Nat.add_sub_cancel_left]

theorem word_lt_capacity {n : Nat} (record : Vector UInt8 n) (start width : Nat)
    (h : start + width ≤ n) : word record start width < capacity width := by
  have hlt := decode_lt_capacity ((record.toList.drop start).take width)
  rw [List.length_take, List.length_drop, Vector.length_toList, Nat.min_eq_left (by omega)] at hlt
  rwa [word_eq]

theorem word_of_toList {n start width value : Nat} {record : Vector UInt8 n}
    (front back : List UInt8) (h : record.toList = front ++ (encode width value ++ back))
    (hstart : front.length = start) (hvalue : value < capacity width) :
    word record start width = value := by
  rw [word_eq, h, ← hstart, List.drop_left, List.take_left' (length_encode width value),
    decode_encode_of_lt hvalue]

theorem encode_word {n : Nat} (record : Vector UInt8 n) {start width : Nat}
    (h : start + width ≤ n) :
    encode width (word record start width) = (record.toList.drop start).take width := by
  have hlength : ((record.toList.drop start).take width).length = width := by
    simp only [List.length_take, List.length_drop, Vector.length_toList]
    omega
  have hspelled := encode_decode ((record.toList.drop start).take width)
  rwa [hlength, ← word_eq] at hspelled

/-- The bytes of a list of words, given by their widths and values. -/
def fieldBytes (fields : List (Nat × Nat)) : List UInt8 :=
  fields.flatMap fun field => encode field.1 field.2

def fieldsWidth : List (Nat × Nat) → Nat
  | [] => 0
  | field :: rest => field.1 + fieldsWidth rest

theorem length_fieldBytes (fields : List (Nat × Nat)) :
    (fieldBytes fields).length = fieldsWidth fields := by
  induction fields with
  | nil => rfl
  | cons field rest ih =>
    rw [fieldBytes, List.flatMap_cons, List.length_append, length_encode, fieldsWidth, ← ih,
      fieldBytes]

theorem word_of_fields {n : Nat} {record : Vector UInt8 n} (before : List (Nat × Nat))
    {after : List (Nat × Nat)} {width value : Nat} {back : List UInt8}
    (h : record.toList = fieldBytes (before ++ (width, value) :: after) ++ back)
    (hvalue : value < capacity width) :
    word record (fieldsWidth before) width = value := by
  refine word_of_toList (fieldBytes before) (fieldBytes after ++ back) ?_
    (length_fieldBytes before) hvalue
  rw [h]
  simp only [fieldBytes, List.flatMap_append, List.flatMap_cons, List.append_assoc]

/-- The words of the given widths that stand side by side in a record. -/
def wordsFrom {n : Nat} (record : Vector UInt8 n) : (start : Nat) → (widths : List Nat) →
    List (Nat × Nat)
  | _, [] => []
  | start, width :: rest =>
    (width, word record start width) :: wordsFrom record (start + width) rest

/-- Words side by side leave no byte out and spell none twice. -/
theorem fieldBytes_wordsFrom {n : Nat} (record : Vector UInt8 n) (widths : List Nat)
    {start width : Nat} (hwidth : fieldsWidth (wordsFrom record start widths) = width)
    (h : start + width ≤ n) :
    fieldBytes (wordsFrom record start widths) = (record.toList.drop start).take width := by
  induction widths generalizing start width with
  | nil =>
    obtain rfl := hwidth
    simp [wordsFrom, fieldBytes, fieldsWidth]
  | cons first rest ih =>
    rw [wordsFrom, fieldsWidth] at hwidth
    subst hwidth
    have hrest : fieldBytes (wordsFrom record (start + first) rest) = _ := ih rfl (by omega)
    rw [fieldBytes] at hrest
    rw [wordsFrom, fieldBytes, List.flatMap_cons, encode_word record (by omega), hrest,
      List.take_add, List.drop_drop]

theorem wordsFrom_replicate {n : Nat} (record : Vector UInt8 n) (start width count : Nat) :
    wordsFrom record start (List.replicate count width) =
      (List.range count).map fun k => (width, word record (start + width * k) width) := by
  induction count generalizing start with
  | zero => rfl
  | succ count ih =>
    have hnext : ∀ k, start + width + width * k = start + width * (k + 1) := by
      intro k
      rw [Nat.mul_succ]
      omega
    simp only [List.replicate_succ, wordsFrom, ih, hnext, List.range_succ_eq_map, List.map_cons,
      List.map_map, Function.comp_def, Nat.mul_zero, Nat.add_zero]

theorem fieldsWidth_replicate {n : Nat} (record : Vector UInt8 n) (start width count : Nat) :
    fieldsWidth (wordsFrom record start (List.replicate count width)) = width * count := by
  induction count generalizing start with
  | zero => rfl
  | succ count ih =>
    rw [List.replicate_succ, wordsFrom, fieldsWidth, ih, Nat.mul_succ, Nat.add_comm]

theorem flatMap_eq_append {α : Type} {width : Nat} {f : α → List UInt8}
    (hf : ∀ a, (f a).length = width) (items : List α) {k : Nat} (hk : k < items.length) :
    ∃ front back, items.flatMap f = front ++ (f items[k] ++ back) ∧ front.length = width * k := by
  refine ⟨(items.take k).flatMap f, (items.drop (k + 1)).flatMap f, ?_, ?_⟩
  · rw [← List.flatMap_cons, ← List.flatMap_append, List.getElem_cons_drop,
      List.take_append_drop]
  · have hwidth : ∀ l : List α, (l.flatMap f).length = width * l.length := by
      intro l
      induction l with
      | nil => simp
      | cons a l ih =>
        rw [List.flatMap_cons, List.length_append, hf, ih, List.length_cons, Nat.mul_succ,
          Nat.add_comm]
    rw [hwidth, List.length_take, Nat.min_eq_left (Nat.le_of_lt hk)]

end BlockFS.LittleEndian
