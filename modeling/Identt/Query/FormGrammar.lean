import Identt.Lib.Projection
import Identt.Lib.Split
import Identt.Query.ProtoForm

/-! # What a form means, and how `urldecode` reads it

A form is pieces between `&`, each a name and a value around its first `=`. `urldecode` starts its buffer again at
every `=`, so a piece with two of them is named by what stands between, and it writes a piece without one only if it
is the last. A text all of whose pieces are read as they are meant is plain.
-/

namespace Identt.Query

open Store.ValidateService (toLower)

/-- The text with its escapes of two digits and its plus signs replaced. -/
def unescape : Bytes → Bytes
  | [] => []
  | c :: rest =>
    if c = percentSign then
      match rest with
      | first :: second :: later =>
        match digitValue 16 first, digitValue 16 second with
        | some high, some low => UInt8.ofNat (16 * high + low) :: unescape later
        | _, _ => percentSign :: unescape (first :: second :: later)
      | ending => percentSign :: unescape ending
    else (if c = plusSign then 32 else c) :: unescape rest

def formPieces (text : Bytes) : List Bytes := (text.splitOn ampersand).filter (· ≠ [])

/-- The name and the value around the first `=` of a piece. -/
def pieceEntry (piece : Bytes) : Bytes × Bytes :=
  (unescape (piece.takeWhile (· ≠ equalSign)), unescape ((piece.dropWhile (· ≠ equalSign)).drop 1))

def putEntry (m : OrderedMap Bytes Bytes) (entry : Bytes × Bytes) : OrderedMap Bytes Bytes := m.put entry.1 entry.2

def formMap (text : Bytes) : OrderedMap Bytes Bytes := ((formPieces text).map pieceEntry).foldl putEntry .empty

/-- Every `%` is followed by two digits. -/
inductive WholeEscapes : Bytes → Prop
  | nil : WholeEscapes []
  | char {c : UInt8} {rest : Bytes} (plain : c ≠ percentSign) (whole : WholeEscapes rest) : WholeEscapes (c :: rest)
  | escape {first second : UInt8} {high low : ℕ} {later : Bytes} (ofFirst : digitValue 16 first = some high)
      (ofSecond : digitValue 16 second = some low) (whole : WholeEscapes later) :
      WholeEscapes (percentSign :: first :: second :: later)

/-- Pieces that are read as they are meant: none has two `=`, all but the last have one unless they are empty, and
the last is not empty. -/
structure PlainPieces (pieces : List Bytes) : Prop where
  oneSign : ∀ piece ∈ pieces, piece.count equalSign ≤ 1
  valued : ∀ piece ∈ pieces.dropLast, piece ≠ [] → equalSign ∈ piece
  ended : pieces.getLast? ≠ some []

structure PlainForm (text : Bytes) : Prop where
  whole : WholeEscapes text
  pieces : PlainPieces (text.splitOn ampersand)

/-- The texts have the same pieces, those of one name in the same order. -/
def SameByName (text text' : Bytes) : Prop :=
  ∀ name, (formPieces text).filter (fun piece => (pieceEntry piece).1 = name) =
    (formPieces text').filter (fun piece => (pieceEntry piece).1 = name)

/-- No name is given twice, and none is empty. -/
structure NamesOnce (text : Bytes) : Prop where
  nodup : ((formPieces text).map (fun piece => (pieceEntry piece).1)).Nodup
  named : ∀ piece ∈ formPieces text, (pieceEntry piece).1 ≠ []

section Escapes

theorem fromHex_digit {c : UInt8} {digit : ℕ} (value : digitValue 16 c = some digit) : fromHex c = UInt8.ofNat digit :=
  forall_byte (p := fun c => ∀ digit, digitValue 16 c = some digit → fromHex c = UInt8.ofNat digit)
    (by decide +kernel) c digit value

/-- What two digits are read as. -/
theorem fromHex_pair {first second : UInt8} {high low : ℕ} (ofFirst : digitValue 16 first = some high)
    (ofSecond : digitValue 16 second = some low) :
    fromHex first <<< 4 ||| fromHex second = UInt8.ofNat (16 * high + low) := by
  have pairs : ∀ high low : Fin 16, UInt8.ofNat high <<< 4 ||| UInt8.ofNat low = UInt8.ofNat (16 * high + low) := by
    decide
  rw [fromHex_digit ofFirst, fromHex_digit ofSecond]
  exact pairs ⟨high, Store.digitValue_lt ofFirst⟩ ⟨low, Store.digitValue_lt ofSecond⟩

theorem ne_zero_of_digit {c : UInt8} {digit : ℕ} (value : digitValue 16 c = some digit) : c ≠ 0 := by
  rintro rfl
  have noDigit : digitValue 16 0 = none := by decide
  exact Option.some_ne_none digit (value.symm.trans noDigit)

/-- Signs that are neither digits nor the escape sign end escapes. -/
theorem ne_of_digit {c sign : UInt8} {digit : ℕ} (value : digitValue 16 c = some digit)
    (noDigit : digitValue 16 sign = none) : c ≠ sign := by
  rintro rfl
  exact Option.some_ne_none digit (value.symm.trans noDigit)

theorem WholeEscapes.append {text text' : Bytes} (whole : WholeEscapes text) (whole' : WholeEscapes text') :
    WholeEscapes (text ++ text') := by
  induction whole with
  | nil => exact whole'
  | char plain _ ih => exact .char plain ih
  | escape ofFirst ofSecond _ ih => exact .escape ofFirst ofSecond ih

/-- An escape does not reach over a separator. -/
theorem WholeEscapes.parts {text text' : Bytes} {sign : UInt8} (noDigit : digitValue 16 sign = none)
    (plainSign : sign ≠ percentSign) (whole : WholeEscapes (text ++ sign :: text')) :
    WholeEscapes text ∧ WholeEscapes text' := by
  generalize joined : text ++ sign :: text' = both at whole
  induction whole generalizing text with
  | nil => exact absurd joined (by simp)
  | @char c rest plain later ih =>
    cases text with
    | nil =>
      obtain ⟨rfl, rfl⟩ := List.cons.inj joined
      exact ⟨.nil, later⟩
    | cons d text =>
      obtain ⟨rfl, same⟩ := List.cons.inj joined
      exact (ih same).imp_left (.char plain)
  | @escape first second high low rest ofFirst ofSecond later ih =>
    rcases text with _ | ⟨d, _ | ⟨e, _ | ⟨f, text⟩⟩⟩
    · exact absurd (List.cons.inj joined).1 plainSign
    · exact absurd (List.cons.inj (List.cons.inj joined).2).1.symm (ne_of_digit ofFirst noDigit)
    · exact absurd (List.cons.inj (List.cons.inj (List.cons.inj joined).2).2).1.symm (ne_of_digit ofSecond noDigit)
    · simp only [List.cons_append, List.cons.injEq] at joined
      obtain ⟨rfl, rfl, rfl, same⟩ := joined
      exact (ih same).imp_left (.escape ofFirst ofSecond)

theorem WholeEscapes.of_pieces {pieces : List Bytes} (whole : WholeEscapes ([ampersand].intercalate pieces)) :
    ∀ piece ∈ pieces, WholeEscapes piece := by
  induction pieces with
  | nil => exact List.forall_mem_nil _
  | cons piece rest ih =>
    cases rest with
    | nil =>
      rw [List.intercalate_singleton] at whole
      exact List.forall_mem_singleton.mpr whole
    | cons next others =>
      rw [List.intercalate_cons_cons, List.append_assoc] at whole
      obtain ⟨first, later⟩ := whole.parts (by decide) (by decide)
      exact List.forall_mem_cons.mpr ⟨first, ih later⟩

end Escapes

section Unescape

theorem unescape_char {c : UInt8} (rest : Bytes) (plain : c ≠ percentSign) :
    unescape (c :: rest) = (if c = plusSign then 32 else c) :: unescape rest := by
  rw [unescape.eq_def]
  exact if_neg plain

theorem unescape_escape {first second : UInt8} {high low : ℕ} (later : Bytes)
    (ofFirst : digitValue 16 first = some high) (ofSecond : digitValue 16 second = some low) :
    unescape (percentSign :: first :: second :: later) = UInt8.ofNat (16 * high + low) :: unescape later := by
  rw [unescape, if_pos rfl, ofFirst, ofSecond]

end Unescape

namespace FormState

theorem decode_escape (s : FormState) {first second : UInt8} {high low : ℕ} (later : Bytes)
    (ofFirst : digitValue 16 first = some high) (ofSecond : digitValue 16 second = some low) :
    decode s (percentSign :: first :: second :: later) = decode (s.push (UInt8.ofNat (16 * high + low))) later := by
  rw [decode, if_pos rfl, if_pos ⟨ne_zero_of_digit ofFirst, ne_zero_of_digit ofSecond⟩, fromHex_pair ofFirst ofSecond]

/-- What one character that starts no escape does. -/
def take (s : FormState) (c : UInt8) : FormState :=
  if c = plusSign then s.push 32 else if c = equalSign then s.setName else if c = ampersand then s.endPiece else s.push c

theorem decode_char (s : FormState) {c : UInt8} (rest : Bytes) (plain : c ≠ percentSign) :
    decode s (c :: rest) = decode (s.take c) rest := by
  rw [decode.eq_def, take]
  dsimp only
  rw [if_neg plain]
  split_ifs <;> rfl

theorem decode_append {text : Bytes} (whole : WholeEscapes text) (s : FormState) (rest : Bytes) :
    decode s (text ++ rest) = decode (decode s text) rest := by
  induction whole generalizing s with
  | nil => rfl
  | char plain _ ih => rw [List.cons_append, decode_char s _ plain, decode_char s _ plain, ih]
  | escape ofFirst ofSecond _ ih =>
    rw [List.cons_append, List.cons_append, List.cons_append, decode_escape s _ ofFirst ofSecond,
      decode_escape s _ ofFirst ofSecond, ih]

/-- A text without signs is collected. -/
theorem decode_field {text : Bytes} (whole : WholeEscapes text) (noEqual : equalSign ∉ text)
    (noAmpersand : ampersand ∉ text) (s : FormState) :
    decode s text = { s with escaped := s.escaped ++ unescape text } := by
  induction whole generalizing s with
  | nil => rw [decode, unescape, List.append_nil]
  | @char c rest plain _ ih =>
    obtain ⟨notEqual, noEqual⟩ := not_or.mp (mt List.mem_cons.mpr noEqual)
    obtain ⟨notAmpersand, noAmpersand⟩ := not_or.mp (mt List.mem_cons.mpr noAmpersand)
    rw [decode_char s rest plain, ih noEqual noAmpersand, unescape_char rest plain, take, if_neg (Ne.symm notEqual),
      if_neg (Ne.symm notAmpersand)]
    split_ifs <;> simp only [push, List.append_assoc, List.singleton_append]
  | @escape first second high low rest ofFirst ofSecond _ ih =>
    have restEqual : equalSign ∉ rest := fun inRest => noEqual (by simp [inRest])
    have restAmpersand : ampersand ∉ rest := fun inRest => noAmpersand (by simp [inRest])
    rw [decode_escape s rest ofFirst ofSecond, ih restEqual restAmpersand, unescape_escape rest ofFirst ofSecond]
    simp only [push, List.append_assoc, List.singleton_append]

end FormState

section Pieces

theorem pieceEntry_cut {name : Bytes} (value : Bytes) (noEqual : equalSign ∉ name) :
    pieceEntry (name ++ equalSign :: value) = (unescape name, unescape value) := by
  have kept : ∀ c ∈ name, decide (c ≠ equalSign) = true :=
    fun c inName => decide_eq_true (fun same => noEqual (same ▸ inName))
  rw [pieceEntry, List.takeWhile_append_of_pos kept, List.dropWhile_append_of_pos kept]
  simp only [ne_eq, not_true_eq_false, decide_false, Bool.false_eq_true, not_false_eq_true,
    List.takeWhile_cons_of_neg, List.dropWhile_cons_of_neg, List.append_nil, List.drop_succ_cons, List.drop_zero]

/-- A piece with a sign is cut at the first one. -/
theorem exists_cut {piece : Bytes} (signed : equalSign ∈ piece) :
    ∃ name value, piece = name ++ equalSign :: value ∧ equalSign ∉ name ∧
      pieceEntry piece = (unescape name, unescape value) := by
  obtain ⟨name, value, rfl, noEqual⟩ := List.eq_append_cons_of_mem signed
  exact ⟨name, value, rfl, noEqual, pieceEntry_cut value noEqual⟩

theorem pieceEntry_unsigned {piece : Bytes} (unsigned : equalSign ∉ piece) :
    pieceEntry piece = (unescape piece, []) := by
  have kept : ∀ c ∈ piece, decide (c ≠ equalSign) = true :=
    fun c inPiece => decide_eq_true (fun same => unsigned (same ▸ inPiece))
  rw [pieceEntry, List.takeWhile_eq_self_iff.mpr kept, List.dropWhile_eq_nil_iff.mpr kept, List.drop_nil, unescape]

namespace FormState

/-- Up to the first `=` a piece is its name. -/
theorem decode_named {name : Bytes} (value : Bytes) (whole : WholeEscapes name) (noEqual : equalSign ∉ name)
    (noAmpersand : ampersand ∉ name) (m : OrderedMap Bytes Bytes) (old : Bytes) :
    decode ⟨m, old, [], false⟩ (name ++ equalSign :: value) = decode ⟨m, unescape name, [], true⟩ value := by
  rw [decode_append whole, decode_field whole noEqual noAmpersand, decode_char _ _ (by decide)]
  rfl

/-- A piece with one `=` is read as it is meant. -/
theorem decode_entry {piece : Bytes} (whole : WholeEscapes piece) (noAmpersand : ampersand ∉ piece)
    (signed : equalSign ∈ piece) (oneSign : piece.count equalSign ≤ 1) (m : OrderedMap Bytes Bytes) (old : Bytes) :
    decode ⟨m, old, [], false⟩ piece = ⟨m, (pieceEntry piece).1, (pieceEntry piece).2, true⟩ := by
  obtain ⟨name, value, rfl, noEqual, entry⟩ := exists_cut signed
  obtain ⟨wholeName, wholeValue⟩ := whole.parts (by decide) (by decide)
  rw [List.mem_append, List.mem_cons, not_or, not_or] at noAmpersand
  rw [List.count_append, List.count_cons_self, List.count_eq_zero.mpr noEqual] at oneSign
  have noMore : equalSign ∉ value := List.count_eq_zero.mp (by omega)
  rw [decode_named value wholeName noEqual noAmpersand.1, decode_field wholeValue noMore noAmpersand.2.2, entry,
    List.nil_append]

end FormState

theorem PlainPieces.tail {piece next : Bytes} {rest : List Bytes} (plain : PlainPieces (piece :: next :: rest)) :
    PlainPieces (next :: rest) where
  oneSign other member := plain.oneSign other (List.mem_cons_of_mem _ member)
  valued other member := plain.valued other (List.mem_cons_of_mem _ member)
  ended := by simpa only [List.getLast?_cons_cons] using plain.ended

theorem putAll_cons (piece : Bytes) (rest : List Bytes) (m : OrderedMap Bytes Bytes) :
    (((piece :: rest).filter (· ≠ [])).map pieceEntry).foldl putEntry m =
      ((rest.filter (· ≠ [])).map pieceEntry).foldl putEntry
        (if piece = [] then m else putEntry m (pieceEntry piece)) := by
  by_cases blank : piece = []
  · simp [blank]
  · simp [blank]

/-- Plain pieces are read as they are meant, whatever was read before them. -/
theorem PlainPieces.finish {pieces : List Bytes} (plain : PlainPieces pieces) (nonempty : pieces ≠ [])
    (whole : ∀ piece ∈ pieces, WholeEscapes piece) (noAmpersand : ∀ piece ∈ pieces, ampersand ∉ piece)
    (m : OrderedMap Bytes Bytes) (old : Bytes) :
    (FormState.decode ⟨m, old, [], false⟩ ([ampersand].intercalate pieces)).finish =
      ((pieces.filter (· ≠ [])).map pieceEntry).foldl putEntry m := by
  induction pieces generalizing m old with
  | nil => exact absurd rfl nonempty
  | cons piece rest ih =>
    obtain ⟨wholePiece, wholeRest⟩ := List.forall_mem_cons.mp whole
    obtain ⟨noPiece, noRest⟩ := List.forall_mem_cons.mp noAmpersand
    have oneSign := plain.oneSign piece (List.mem_cons_self ..)
    rw [putAll_cons]
    cases rest with
    | nil =>
      have filled : piece ≠ [] := fun blank => plain.ended (by rw [blank]; rfl)
      rw [List.intercalate_singleton, if_neg filled]
      by_cases signed : equalSign ∈ piece
      · rw [FormState.decode_entry wholePiece noPiece signed oneSign]
        rfl
      · rw [FormState.decode_field wholePiece signed noPiece, pieceEntry_unsigned signed]
        rfl
    | cons next others =>
      rw [List.intercalate_cons_cons, List.append_assoc, List.singleton_append, FormState.decode_append wholePiece,
        FormState.decode_char _ _ (by decide), ← ih plain.tail (List.cons_ne_nil _ _) wholeRest noRest _
        (if piece = [] then old else (pieceEntry piece).1)]
      by_cases blank : piece = []
      · rw [if_pos blank, if_pos blank, blank]
        rfl
      · have signed : equalSign ∈ piece := plain.valued piece (by simp) blank
        rw [if_neg blank, if_neg blank, FormState.decode_entry wholePiece noPiece signed oneSign]
        rfl

/-- A plain form is read as it is meant. -/
theorem PlainForm.urldecode_eq {text : Bytes} (plain : PlainForm text) : urldecode text = formMap text := by
  have joined : [ampersand].intercalate (text.splitOn ampersand) = text := List.intercalate_splitOn ampersand
  have whole := WholeEscapes.of_pieces (joined.symm ▸ plain.whole)
  have read := plain.pieces.finish (List.splitOn_ne_nil _ _) whole (fun _ => Split.notMem_of_mem_splitOn) .empty []
  rwa [joined] at read

end Pieces

section Total

/-- The length of all values of the names, and their number. -/
def total (names : List Bytes) (m : OrderedMap Bytes Bytes) : ℕ :=
  (names.map fun name => (m.get? name).elim 0 fun value => value.length + 1).sum

theorem total_put_le {names : List Bytes} (nodup : names.Nodup) (m : OrderedMap Bytes Bytes) (name value : Bytes) :
    total names (m.put name value) ≤ total names m + (value.length + 1) := by
  induction names with
  | nil => exact Nat.zero_le _
  | cons other rest ih =>
    obtain ⟨fresh, nodup⟩ := List.nodup_cons.mp nodup
    have step := ih nodup
    simp only [total, List.map_cons, List.sum_cons] at step ⊢
    by_cases same : other = name
    · have untouched : rest.map (fun other => ((m.put name value).get? other).elim 0 fun value => value.length + 1) =
          rest.map (fun other => (m.get? other).elim 0 fun value => value.length + 1) := by
        refine List.map_congr_left fun later inRest => ?_
        rw [OrderedMap.get?_put_of_ne m value (fun equal => fresh (by rwa [same, ← equal]))]
      rw [untouched, same, OrderedMap.get?_put_self, Option.elim_some]
      omega
    · rw [OrderedMap.get?_put_of_ne m value same]
      omega

/-- What a piece is meant to add. -/
def meant (piece : Bytes) : ℕ := if piece = [] then 0 else (pieceEntry piece).2.length + 1

/-- Reading on after a `=`, each further `=` makes the value shorter than it is meant. -/
theorem FormState.decode_valued {value : Bytes} (whole : WholeEscapes value) (noAmpersand : ampersand ∉ value)
    (m : OrderedMap Bytes Bytes) (name escaped : Bytes) : ∃ name' value',
      FormState.decode ⟨m, name, escaped, true⟩ value = ⟨m, name', value', true⟩ ∧
        value'.length + value.count equalSign ≤ escaped.length + (unescape value).length := by
  induction whole generalizing name escaped with
  | nil => exact ⟨name, escaped, rfl, by simp [unescape]⟩
  | @char c rest plain _ ih =>
    obtain ⟨notAmpersand, noAmpersand⟩ := not_or.mp (mt List.mem_cons.mpr noAmpersand)
    rw [decode_char _ rest plain, unescape_char rest plain, take, if_neg (Ne.symm notAmpersand), List.length_cons]
    by_cases plus : c = plusSign
    · obtain ⟨name', value', read, short⟩ := ih noAmpersand name (escaped ++ [32])
      refine ⟨name', value', by rw [if_pos plus]; exact read, ?_⟩
      rw [List.count_cons_of_ne (by rw [plus]; decide)]
      rw [List.length_append, List.length_singleton] at short
      omega
    · rw [if_neg plus]
      by_cases equal : c = equalSign
      · obtain ⟨name', value', read, short⟩ := ih noAmpersand escaped []
        refine ⟨name', value', by rw [if_pos equal]; exact read, ?_⟩
        rw [equal, List.count_cons_self]
        rw [List.length_nil] at short
        omega
      · obtain ⟨name', value', read, short⟩ := ih noAmpersand name (escaped ++ [c])
        refine ⟨name', value', by rw [if_neg equal]; exact read, ?_⟩
        rw [List.count_cons_of_ne equal]
        rw [List.length_append, List.length_singleton] at short
        omega
  | @escape first second high low later ofFirst ofSecond _ ih =>
    have restAmpersand : ampersand ∉ later := fun inRest => noAmpersand (by simp [inRest])
    obtain ⟨name', value', read, short⟩ := ih restAmpersand name (escaped ++ [UInt8.ofNat (16 * high + low)])
    refine ⟨name', value', by rw [decode_escape _ later ofFirst ofSecond]; exact read, ?_⟩
    rw [List.count_cons_of_ne (by decide), List.count_cons_of_ne (ne_of_digit ofFirst (by decide)),
      List.count_cons_of_ne (ne_of_digit ofSecond (by decide)), unescape_escape later ofFirst ofSecond, List.length_cons]
    rw [List.length_append, List.length_singleton] at short
    omega

/-- A piece with a sign adds no more than it is meant to, and less if it has two. -/
theorem FormState.decode_signed {piece : Bytes} (whole : WholeEscapes piece) (noAmpersand : ampersand ∉ piece)
    (signed : equalSign ∈ piece) (m : OrderedMap Bytes Bytes) (old : Bytes) : ∃ name value,
      FormState.decode ⟨m, old, [], false⟩ piece = ⟨m, name, value, true⟩ ∧
        value.length + piece.count equalSign ≤ meant piece := by
  obtain ⟨name, value, rfl, noEqual, entry⟩ := exists_cut signed
  obtain ⟨wholeName, wholeValue⟩ := whole.parts (by decide) (by decide)
  rw [List.mem_append, List.mem_cons, not_or, not_or] at noAmpersand
  obtain ⟨name', value', read, short⟩ := decode_valued wholeValue noAmpersand.2.2 m (unescape name) []
  refine ⟨name', value', by rw [decode_named value wholeName noEqual noAmpersand.1]; exact read, ?_⟩
  rw [meant, if_neg (by simp), entry, List.count_append, List.count_cons_self, List.count_eq_zero.mpr noEqual]
  rw [List.length_nil] at short
  dsimp only
  omega

theorem PlainPieces.cons {piece next : Bytes} {rest : List Bytes} (plain : PlainPieces (next :: rest))
    (oneSign : piece.count equalSign ≤ 1) (valued : piece ≠ [] → equalSign ∈ piece) :
    PlainPieces (piece :: next :: rest) where
  oneSign := List.forall_mem_cons.mpr ⟨oneSign, plain.oneSign⟩
  valued := by
    rw [List.dropLast_cons_cons]
    exact List.forall_mem_cons.mpr ⟨valued, plain.valued⟩
  ended := by simpa only [List.getLast?_cons_cons] using plain.ended

/-- So does the last piece, also without a sign. -/
theorem FormState.decode_last {piece : Bytes} (filled : piece ≠ []) (whole : WholeEscapes piece)
    (noAmpersand : ampersand ∉ piece) (m : OrderedMap Bytes Bytes) (old : Bytes) : ∃ name value,
      (FormState.decode ⟨m, old, [], false⟩ piece).finish = m.put name value ∧
        value.length + max 1 (piece.count equalSign) ≤ meant piece := by
  by_cases signed : equalSign ∈ piece
  · obtain ⟨name, value, decoded, short⟩ := FormState.decode_signed whole noAmpersand signed m old
    have some := List.count_pos_iff.mpr signed
    refine ⟨name, value, ?_, by omega⟩
    simp only [decoded, FormState.finish, if_true]
  · refine ⟨unescape piece, [], ?_, ?_⟩
    · rw [FormState.decode_field whole signed noAmpersand]
      rfl
    · rw [meant, if_neg filled, pieceEntry_unsigned signed, List.count_eq_zero.mpr signed]
      exact le_refl 1

/-- Pieces add at most what they are meant to, and if they add all of it they are plain. -/
theorem total_decode {names : List Bytes} (nodup : names.Nodup) {pieces : List Bytes} (nonempty : pieces ≠ [])
    (whole : ∀ piece ∈ pieces, WholeEscapes piece) (noAmpersand : ∀ piece ∈ pieces, ampersand ∉ piece)
    (ended : pieces.getLast? ≠ some []) (m : OrderedMap Bytes Bytes) (old : Bytes) :
    let read := (FormState.decode ⟨m, old, [], false⟩ ([ampersand].intercalate pieces)).finish
    total names read ≤ total names m + (pieces.map meant).sum ∧
      (total names read = total names m + (pieces.map meant).sum → PlainPieces pieces) := by
  induction pieces generalizing m old with
  | nil => exact absurd rfl nonempty
  | cons piece rest ih =>
    obtain ⟨wholePiece, wholeRest⟩ := List.forall_mem_cons.mp whole
    obtain ⟨noPiece, noRest⟩ := List.forall_mem_cons.mp noAmpersand
    intro read
    cases rest with
    | nil =>
      have filled : piece ≠ [] := fun blank => ended (by rw [blank]; rfl)
      have single (oneSign : piece.count equalSign ≤ 1) : PlainPieces [piece] :=
        ⟨List.forall_mem_singleton.mpr oneSign, by simp, ended⟩
      obtain ⟨name, value, decoded, short⟩ := FormState.decode_last filled wholePiece noPiece m old
      have step := total_put_le nodup m name value
      have ofRead : read = m.put name value := by
        simp only [read, List.intercalate_singleton, decoded]
      rw [List.map_singleton, List.sum_singleton, ofRead]
      exact ⟨by omega, fun all => single (by omega)⟩
    | cons next others =>
      have later := ih (List.cons_ne_nil _ _) wholeRest noRest (by simpa only [List.getLast?_cons_cons] using ended)
      have ofRead : read = (FormState.decode (FormState.decode ⟨m, old, [], false⟩ piece).endPiece
          ([ampersand].intercalate (next :: others))).finish := by
        simp only [read]
        rw [List.intercalate_cons_cons, List.append_assoc, List.singleton_append, FormState.decode_append wholePiece,
          FormState.decode_char _ _ (by decide)]
        rfl
      rw [List.map_cons, List.sum_cons, ofRead]
      by_cases signed : equalSign ∈ piece
      · obtain ⟨name, value, decoded, short⟩ := FormState.decode_signed wholePiece noPiece signed m old
        have step := total_put_le nodup m name value
        have some := List.count_pos_iff.mpr signed
        obtain ⟨bound, plain⟩ := later (m.put name value) name
        rw [decoded]
        simp only [FormState.endPiece, if_true]
        exact ⟨by omega, fun all => (plain (by omega)).cons (by omega) fun _ => signed⟩
      · obtain ⟨bound, plain⟩ := later m old
        rw [FormState.decode_field wholePiece signed noPiece]
        simp only [FormState.endPiece, Bool.false_eq_true, if_false]
        refine ⟨by omega, fun all => ?_⟩
        have blank : piece = [] := by
          by_contra filled
          rw [meant, if_neg filled] at all
          omega
        exact (plain (by rw [blank, meant, if_pos rfl] at all; omega)).cons (by rw [blank]; exact Nat.zero_le _)
          (absurd blank)

/-- A form whose last piece is empty gets an empty name. -/
theorem get?_finish_blank {pieces : List Bytes} (nonempty : pieces ≠ []) (whole : ∀ piece ∈ pieces, WholeEscapes piece)
    (blank : pieces.getLast? = some []) (m : OrderedMap Bytes Bytes) (old : Bytes) :
    (FormState.decode ⟨m, old, [], false⟩ ([ampersand].intercalate pieces)).finish.get? [] = some [] := by
  induction pieces generalizing m old with
  | nil => exact absurd rfl nonempty
  | cons piece rest ih =>
    obtain ⟨wholePiece, wholeRest⟩ := List.forall_mem_cons.mp whole
    cases rest with
    | nil =>
      have last : piece = [] := Option.some.inj blank
      rw [List.intercalate_singleton, last]
      exact OrderedMap.get?_put_self ..
    | cons next others =>
      rw [List.getLast?_cons_cons] at blank
      rw [List.intercalate_cons_cons, List.append_assoc, List.singleton_append, FormState.decode_append wholePiece,
        FormState.decode_char _ _ (by decide)]
      exact ih (List.cons_ne_nil _ _) wholeRest blank _ _

namespace NamesOnce

variable {text : Bytes} (once : NamesOnce text)

include once

theorem get?_formMap (name value : Bytes) :
    (formMap text).get? name = some value ↔ ∃ piece ∈ formPieces text, pieceEntry piece = (name, value) := by
  have distinct : ∀ piece ∈ formPieces text, ∀ piece' ∈ formPieces text,
      (pieceEntry piece).1 = (pieceEntry piece').1 → piece = piece' :=
    fun piece inForm piece' inForm' => List.inj_on_of_nodup_map once.nodup inForm inForm'
  have listed := @OrderedMap.get?_foldl_put _ _ _ _ (fun piece => (pieceEntry piece).1)
    (fun piece => (pieceEntry piece).2) (formPieces text) distinct .empty name value
  rw [formMap, List.foldl_map]
  refine listed.trans ?_
  simp only [OrderedMap.get?_empty, reduceCtorEq, and_false, or_false, Prod.ext_iff]

/-- The map has all that the pieces are meant to add. -/
theorem total_formMap : total ((formPieces text).map fun piece => (pieceEntry piece).1) (formMap text) =
    ((text.splitOn ampersand).map meant).sum := by
  have values : (formPieces text).map (fun piece => ((formMap text).get? (pieceEntry piece).1).elim 0
      fun value => value.length + 1) = (formPieces text).map meant := by
    refine List.map_congr_left fun piece inForm => ?_
    have filled : piece ≠ [] := by simpa using (List.mem_filter.mp inForm).2
    have named := (once.get?_formMap (pieceEntry piece).1 (pieceEntry piece).2).mpr ⟨piece, inForm, rfl⟩
    rw [named, meant, if_neg filled]
    rfl
  have blanks (pieces : List Bytes) : ((pieces.filter (· ≠ [])).map meant).sum = (pieces.map meant).sum := by
    induction pieces with
    | nil => rfl
    | cons piece rest ih =>
      by_cases blank : piece = []
      · simp [blank, meant, ← ih]
      · simp [blank, ← ih]
  rw [total, List.map_map]
  exact (congrArg List.sum values).trans (blanks _)

theorem plainForm (whole : WholeEscapes text) (same : urldecode text = formMap text) : PlainForm text := by
  have joined : [ampersand].intercalate (text.splitOn ampersand) = text := List.intercalate_splitOn ampersand
  have wholePieces := WholeEscapes.of_pieces (joined.symm ▸ whole)
  have ended : (text.splitOn ampersand).getLast? ≠ some [] := by
    intro blank
    have unnamed := get?_finish_blank (List.splitOn_ne_nil _ _) wholePieces blank .empty []
    rw [joined] at unnamed
    obtain ⟨piece, inForm, entry⟩ := (once.get?_formMap [] []).mp (same ▸ unnamed)
    exact once.named piece inForm (congrArg Prod.fst entry)
  have added := total_decode once.nodup (List.splitOn_ne_nil _ _) wholePieces (fun _ => Split.notMem_of_mem_splitOn) ended
    .empty []
  rw [joined] at added
  have blank : total ((formPieces text).map fun piece => (pieceEntry piece).1) .empty = 0 := by
    simp [total, Function.comp_def]
  refine ⟨whole, added.2 ?_⟩
  rw [blank, Nat.zero_add, ← once.total_formMap]
  exact congrArg _ same

end NamesOnce

end Total

section Order

/-- Only the entries of a name decide its value. -/
theorem get?_putAll_filter (entries : List (Bytes × Bytes)) (m : OrderedMap Bytes Bytes) (name : Bytes) :
    (entries.foldl putEntry m).get? name = ((entries.filter (·.1 = name)).foldl putEntry m).get? name := by
  induction entries using List.reverseRecOn with
  | nil => rfl
  | append_singleton entries entry ih =>
    rw [List.foldl_append, List.filter_append, List.foldl_append, List.foldl_cons, List.foldl_nil, putEntry,
      OrderedMap.get?_put, ih]
    by_cases same : entry.1 = name
    · simp [putEntry, same]
    · simp [same, Ne.symm same]

theorem SameByName.formMap_eq {text text' : Bytes} (same : SameByName text text') : formMap text = formMap text' := by
  refine OrderedMap.ext_get? fun name => ?_
  have entries : ∀ pieces : List Bytes, (pieces.map pieceEntry).filter (fun entry => decide (entry.1 = name)) =
      (pieces.filter (fun piece => decide ((pieceEntry piece).1 = name))).map pieceEntry :=
    fun pieces => List.filter_map
  rw [formMap, formMap, get?_putAll_filter, get?_putAll_filter (List.map _ (formPieces text')), entries, entries,
    same name]

end Order

/-- A plain form is read by the grammar, and reordering it into another plain form changes nothing. When no name is
given twice, only plain forms are read so. -/
theorem urldecode_grammar (text : Bytes) :
    (PlainForm text → urldecode text = formMap text ∧
      ∀ text', PlainForm text' → SameByName text text' → urldecode text' = urldecode text) ∧
    (WholeEscapes text → NamesOnce text → (urldecode text = formMap text ↔ PlainForm text)) := by
  refine ⟨fun plain => ⟨plain.urldecode_eq, fun text' plain' same => ?_⟩, fun whole once =>
    ⟨once.plainForm whole, PlainForm.urldecode_eq⟩⟩
  rw [plain.urldecode_eq, plain'.urldecode_eq, same.formMap_eq]

theorem urldecode_grammar_swapped :
    urldecode (ascii "a=%41&b=+") = urldecode (ascii "b=+&a=%41") ∧ PlainForm (ascii "b=+&a=%41") := by
  have text : ascii "b=+&a=%41" = [98, 61, 43, 38, 97, 61, 37, 52, 49] := by decide
  have text' : ascii "a=%41&b=+" = [97, 61, 37, 52, 49, 38, 98, 61, 43] := by decide
  have whole : WholeEscapes (ascii "b=+&a=%41") := by
    rw [text]
    have four : digitValue 16 52 = some 4 := by decide
    have one : digitValue 16 49 = some 1 := by decide
    exact .char (by decide) (.char (by decide) (.char (by decide) (.char (by decide) (.char (by decide)
      (.char (by decide) (.escape four one .nil))))))
  have plain : PlainForm (ascii "b=+&a=%41") :=
    ((urldecode_grammar _).2 whole ⟨by decide +kernel, by decide +kernel⟩).mp (by decide +kernel)
  have plain' : PlainForm (ascii "a=%41&b=+") := by
    refine ⟨?_, by decide +kernel, by decide +kernel, by decide +kernel⟩
    rw [text']
    have four : digitValue 16 52 = some 4 := by decide
    have one : digitValue 16 49 = some 1 := by decide
    exact .char (by decide) (.char (by decide) (.escape four one (.char (by decide) (.char (by decide)
      (.char (by decide) (.char (by decide) .nil))))))
  have same : SameByName (ascii "b=+&a=%41") (ascii "a=%41&b=+") := by
    intro name
    have pieces : formPieces (ascii "b=+&a=%41") = [ascii "b=+", ascii "a=%41"] := by decide +kernel
    have pieces' : formPieces (ascii "a=%41&b=+") = [ascii "a=%41", ascii "b=+"] := by decide +kernel
    have ofB : (pieceEntry (ascii "b=+")).1 = ascii "b" := by decide +kernel
    have ofA : (pieceEntry (ascii "a=%41")).1 = ascii "a" := by decide +kernel
    have other : ascii "a" ≠ ascii "b" := by decide
    rw [pieces, pieces']
    by_cases isA : ascii "a" = name
    · simp [ofA, ofB, ← isA, other.symm]
    · by_cases isB : ascii "b" = name
      · simp [ofA, ofB, ← isB, other]
      · simp [ofA, ofB, isA, isB]
  exact ⟨((urldecode_grammar _).1 plain).2 _ plain' same, plain⟩

/-- The name of the first two signs is lost. -/
theorem urldecode_two_signs : urldecode (ascii "a=b=c") ≠ formMap (ascii "a=b=c") := by decide +kernel

end Identt.Query
