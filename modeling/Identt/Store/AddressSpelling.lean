import Identt.Store.ValidateService

/-! # One number, one address

A phone number may be written with `+` or `00` in front of it or without, and its address is what follows. The
length that a number needs is asked of it as it is written, so a short number is accepted with a mark and not
without, and its address is no number that is accepted.
-/

namespace Identt.Store

open Query ValidateService

/-- The ways in which a number is written. -/
def spellings (address : Bytes) : List Bytes := [address, ascii "+" ++ address, ascii "00" ++ address]

/-- The address starts with the code of the country, and each way of writing it gives it again. -/
structure CanonicalNumber (country address : Bytes) : Prop where
  coded : ∃ isd, validIsdCodes.lookup country = some isd ∧ isd <+: address
  spelled : ∀ phoneNumber ∈ spellings address, ∀ reqtok : RequestTokenT, reqtok.country = country →
    reqtok.phoneNumber = phoneNumber → populateAddress reqtok (ascii "msisdn") = .ok address

section Number

variable {reqtok : RequestTokenT} {address : Bytes}

/-- What `PopulateAddress` makes sure of for a number. -/
theorem populateAddress_msisdn : populateAddress reqtok (ascii "msisdn") = .ok address ↔
    5 ≤ reqtok.phoneNumber.length ∧ reqtok.country.length = 2 ∧
      (∃ isd, validIsdCodes.lookup reqtok.country = some isd ∧ isd <+: address) ∧
      stripMark reqtok.phoneNumber = address := by
  have notEmail : ascii "msisdn" ≠ ascii "email" := by decide
  rw [populateAddress, if_neg notEmail, if_pos rfl]
  by_cases short : reqtok.phoneNumber.length < 5
  · rw [if_pos short]
    exact iff_of_false (by simp) fun all => by omega
  by_cases letters : reqtok.country.length = 2
  · rw [if_neg short, if_neg (not_not.mpr letters)]
    cases code : validIsdCodes.lookup reqtok.country with
    | none => simp
    | some isd =>
      have coded : (stripMark reqtok.phoneNumber).take isd.length = isd ↔ isd <+: stripMark reqtok.phoneNumber :=
        eq_comm.trans List.prefix_iff_eq_take.symm
      simp only [ne_eq, coded, Option.some.injEq, exists_eq_left']
      by_cases matching : isd <+: stripMark reqtok.phoneNumber
      · rw [if_neg (not_not.mpr matching), Except.ok.injEq]
        constructor
        · rintro rfl
          exact ⟨not_lt.mp short, letters, matching, rfl⟩
        · exact fun all => all.2.2.2
      · rw [if_pos matching]
        refine iff_of_false (by simp) ?_
        rintro ⟨-, -, others, rfl⟩
        exact matching others
  · rw [if_neg short, if_pos letters]
    exact iff_of_false (by simp) fun all => letters all.2.1

/-- Codes start with a digit other than zero, so there is no mark in front of an address. -/
theorem stripMark_of_coded {country isd : Bytes} (code : validIsdCodes.lookup country = some isd)
    (coded : isd <+: address) : stripMark address = address := by
  have heads : ∀ entry ∈ validIsdCodes, ∃ c, entry.2.head? = some c ∧ c ≠ 43 ∧ c ≠ 48 := by
    simp only [validIsdCodes, List.forall_mem_cons]
    decide
  obtain ⟨before, after, listed, -⟩ := List.lookup_eq_some_iff.mp code
  obtain ⟨c, head, notPlus, notZero⟩ := heads (country, isd) (by rw [listed]; simp)
  obtain ⟨rest, rfl⟩ := coded
  obtain ⟨tail, rfl⟩ : ∃ tail, isd = c :: tail := List.head?_eq_some_iff.mp head
  have plus : (c :: tail ++ rest).take 1 ≠ ascii "+" := fun same => notPlus (List.cons.inj same).1
  have zeros : (c :: tail ++ rest).take 2 ≠ ascii "00" := fun same => notZero (List.cons.inj same).1
  rw [stripMark, if_neg plus, if_neg zeros]

theorem stripMark_spelling {country isd : Bytes} (code : validIsdCodes.lookup country = some isd)
    (coded : isd <+: address) : ∀ phoneNumber ∈ spellings address, stripMark phoneNumber = address := by
  simp only [spellings, List.forall_mem_cons, List.not_mem_nil, false_implies, implies_true, and_true]
  exact ⟨stripMark_of_coded code coded, rfl, rfl⟩

/-- The address of a number is canonical when it is long enough to be a number itself. -/
theorem canonicalNumber_iff (populated : populateAddress reqtok (ascii "msisdn") = .ok address) :
    CanonicalNumber reqtok.country address ↔ 5 ≤ (stripMark reqtok.phoneNumber).length := by
  obtain ⟨-, letters, ⟨isd, code, coded⟩, rfl⟩ := populateAddress_msisdn.mp populated
  constructor
  · intro canonical
    have plain := canonical.spelled _ (List.mem_cons_self ..)
      { reqtok with phoneNumber := stripMark reqtok.phoneNumber } rfl rfl
    exact (populateAddress_msisdn.mp plain).1
  · intro long
    refine ⟨⟨isd, code, coded⟩, fun phoneNumber isSpelling reqtok' sameCountry written => ?_⟩
    have stripped := stripMark_spelling code coded phoneNumber isSpelling
    have longer : 5 ≤ phoneNumber.length := by
      simp only [spellings, List.mem_cons, List.not_mem_nil, or_false] at isSpelling
      rcases isSpelling with rfl | rfl | rfl
      · exact long
      · exact long.trans (Nat.le_succ _)
      · exact long.trans (Nat.le_add_right _ 2)
    rw [populateAddress_msisdn, sameCountry, written]
    exact ⟨longer, letters, ⟨isd, code, coded⟩, stripped⟩

end Number

theorem toLower_toLower (c : UInt8) : toLower (toLower c) = toLower c :=
  forall_byte (p := fun c => toLower (toLower c) = toLower c) (by decide +kernel) c

/-- The address of a mail address is its own address. -/
theorem populateAddress_email {reqtok reqtok' : RequestTokenT} {address : Bytes}
    (populated : populateAddress reqtok (ascii "email") = .ok address) (written : reqtok'.email = address) :
    populateAddress reqtok' (ascii "email") = .ok address := by
  rw [populateAddress, if_pos rfl] at populated ⊢
  split at populated
  · cases populated
  · next long =>
    cases populated
    have lower : (reqtok.email.map toLower).map toLower = reqtok.email.map toLower := by
      rw [List.map_map]
      exact List.map_congr_left fun c _ => toLower_toLower c
    rw [written, if_neg (by rwa [List.length_map]), lower]

/-- A number that is accepted has a canonical address exactly when its address has five characters, and the address
of a mail address is always its own. -/
theorem populateAddress_canonical (reqtok : RequestTokenT) (address : Bytes) :
    (populateAddress reqtok (ascii "msisdn") = .ok address →
      (CanonicalNumber reqtok.country address ↔ 5 ≤ (stripMark reqtok.phoneNumber).length)) ∧
    (populateAddress reqtok (ascii "email") = .ok address →
      ∀ reqtok' : RequestTokenT, reqtok'.email = address → populateAddress reqtok' (ascii "email") = .ok address) :=
  ⟨canonicalNumber_iff, fun populated _ written => populateAddress_email populated written⟩

theorem populateAddress_canonical_long :
    CanonicalNumber (ascii "IN") (ascii "91123") ∧
      populateAddress { email := ascii "a@b.c" } (ascii "email") = .ok (ascii "a@b.c") :=
  ⟨((populateAddress_canonical { country := ascii "IN", phoneNumber := ascii "+91123" } (ascii "91123")).1
      (by decide +kernel)).mpr (by decide +kernel),
    (populateAddress_canonical { email := ascii "A@B.c" } (ascii "a@b.c")).2 (by decide +kernel)
      { email := ascii "a@b.c" } rfl⟩

/-- A short number is accepted with a mark, and its address is not. -/
theorem populateAddress_short :
    populateAddress { country := ascii "IN", phoneNumber := ascii "+9112" } (ascii "msisdn") = .ok (ascii "9112") ∧
      populateAddress { country := ascii "IN", phoneNumber := ascii "9112" } (ascii "msisdn") =
        .error (.sydent "Invalid Phone No" mInvalidPhoneNumber) := by decide +kernel

end Identt.Store
