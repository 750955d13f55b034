import Mathlib.Algebra.Order.Ring.Nat
import Mathlib.Data.List.Perm.Basic
import SqueezeboxConnect.ByteFields
import SqueezeboxConnect.Words

/-!
# Country restrictions of a track

A restriction names the catalogues it is for and lists the countries that are
allowed or forbidden, two bytes each in one text. The text is cut with plain
slices, which panic behind its end and inside of a character. The first
restriction for the user's catalogue that has a list decides alone.

In a message only one of the two lists can be set; nothing here depends on that.
The catalogue numbers and the type of a restriction are not looked at.
-/

namespace Restrictions

open ByteFields Outcomes Words

section Slices

/-- `(&text[..n], &text[n..])`. -/
def splitBytes : Nat → Text → Except Panic (Text × Text)
  | 0, text => .ok ([], text)
  | _ + 1, [] => .error .slice
  | n + 1, c :: rest =>
    if c.utf8Size ≤ n + 1 then
      (splitBytes (n + 1 - c.utf8Size) rest).map fun (front, back) => (c :: front, back)
    else .error .slice
termination_by _ text => text.length

theorem splitBytes_eq_ok {n : Nat} {text front back : Text} :
    splitBytes n text = .ok (front, back) ↔ text = front ++ back ∧ byteLength front = n := by
  fun_induction splitBytes n text generalizing front with
  | case1 text =>
    constructor
    · intro cut
      cases cut
      exact ⟨rfl, rfl⟩
    · rintro ⟨rfl, empty⟩
      cases front with
      | nil => rfl
      | cons c front =>
        have := c.utf8Size_pos
        simp [byteLength] at empty
        omega
  | case2 n =>
    constructor
    · intro cut
      cases cut
    · rintro ⟨nothing, length⟩
      rw [(List.append_eq_nil_iff.mp nothing.symm).1] at length
      cases length
  | case3 n c rest fits ih =>
    rw [map_eq_ok_iff]
    constructor
    · rintro ⟨⟨front', back'⟩, cut, same⟩
      cases same
      obtain ⟨rfl, length⟩ := ih.mp cut
      refine ⟨rfl, ?_⟩
      simp only [byteLength, List.map_cons, List.sum_cons] at length ⊢
      omega
    · rintro ⟨same, length⟩
      cases front with
      | nil => cases length
      | cons d front =>
        obtain ⟨rfl, rfl⟩ := List.cons.inj same
        refine ⟨(front, back), ih.mpr ⟨rfl, ?_⟩, rfl⟩
        simp only [byteLength, List.map_cons, List.sum_cons] at length ⊢
        omega
  | case4 n c rest large =>
    constructor
    · intro cut
      cases cut
    · rintro ⟨same, length⟩
      cases front with
      | nil => cases length
      | cons d front =>
        obtain ⟨rfl, rfl⟩ := List.cons.inj same
        simp only [byteLength, List.map_cons, List.sum_cons] at length
        omega

theorem splitBytes_shorter {n : Nat} (positive : n ≠ 0) {text front back : Text}
    (cut : splitBytes n text = .ok (front, back)) : back.length < text.length := by
  obtain ⟨rfl, length⟩ := splitBytes_eq_ok.mp cut
  cases front with
  | nil => exact absurd length.symm positive
  | cons c front => simp only [List.cons_append, List.length_cons, List.length_append]; omega

/-- The items of the iterator `StrChunks`, until it is empty. -/
def chunks (size : Nat) [NeZero size] (text : Text) : Except Panic (List Text) :=
  if text = [] then .ok []
  else
    match _cut : splitBytes size text with
    | .error e => .error e
    | .ok (chunk, rest) => (chunks size rest).map fun later => chunk :: later
termination_by text.length
decreasing_by exact splitBytes_shorter (NeZero.ne size) _cut

/-- A text has chunks if it is put together from them. -/
theorem chunks_eq_ok {size : Nat} [NeZero size] {text : Text} {parts : List Text} :
    chunks size text = .ok parts ↔
      text = parts.flatten ∧ ∀ part ∈ parts, byteLength part = size := by
  induction length : text.length using Nat.strongRecOn generalizing text parts with
  | ind n ih =>
    rw [chunks]
    split
    · next empty =>
      rw [empty]
      constructor
      · intro done
        cases done
        exact ⟨rfl, by simp⟩
      · rintro ⟨nothing, whole⟩
        cases parts with
        | nil => rfl
        | cons part parts =>
          have first := (List.append_eq_nil_iff.mp nothing.symm).1
          have := whole part List.mem_cons_self
          rw [first] at this
          exact absurd this.symm (NeZero.ne size)
    · next filled =>
      split
      · next e failed =>
        constructor
        · intro done
          cases done
        · rintro ⟨rfl, whole⟩
          cases parts with
          | nil => exact absurd rfl filled
          | cons part parts =>
            have cut : splitBytes size (part ++ parts.flatten) = .ok (part, parts.flatten) :=
              splitBytes_eq_ok.mpr ⟨rfl, whole part List.mem_cons_self⟩
            rw [List.flatten_cons, cut] at failed
            cases failed
      · next chunk rest cut =>
        have shorter := splitBytes_shorter (NeZero.ne size) cut
        obtain ⟨rfl, first⟩ := splitBytes_eq_ok.mp cut
        rw [map_eq_ok_iff]
        constructor
        · rintro ⟨later, done, rfl⟩
          obtain ⟨rfl, whole⟩ := (ih rest.length (length ▸ shorter) rfl).mp done
          exact ⟨rfl, List.forall_mem_cons.mpr ⟨first, whole⟩⟩
        · rintro ⟨same, whole⟩
          cases parts with
          | nil => exact absurd same filled
          | cons part parts =>
            have cut' : splitBytes size (part ++ parts.flatten) = .ok (part, parts.flatten) :=
              splitBytes_eq_ok.mpr ⟨rfl, whole part List.mem_cons_self⟩
            rw [same, List.flatten_cons, cut'] at cut
            cases cut
            refine ⟨parts, (ih _ (length ▸ shorter) rfl).mpr ⟨rfl, ?_⟩, rfl⟩
            exact fun part inside => whole part (List.mem_cons_of_mem _ inside)

end Slices

structure RestrictionMessage where
  catalogueStr : List Text
  countriesAllowed : Option Text
  countriesForbidden : Option Text
  deriving DecidableEq

structure Restriction where
  catalogueStrs : List Text
  countriesAllowed : Option (List Text)
  countriesForbidden : Option (List Text)
  deriving DecidableEq

namespace Restriction

def parseCountryCodes (countryCodes : Text) : Except Panic (List Text) := chunks 2 countryCodes

/-- A list that may be missing. -/
def parseCountries : Option Text → Except Panic (Option (List Text))
  | none => .ok none
  | some countryCodes => (parseCountryCodes countryCodes).map some

/-- `From<&RestrictionMessage>`. -/
def ofMessage (message : RestrictionMessage) : Except Panic Restriction :=
  (parseCountries message.countriesAllowed).bind fun countriesAllowed =>
    (parseCountries message.countriesForbidden).bind fun countriesForbidden =>
      .ok ⟨message.catalogueStr, countriesAllowed, countriesForbidden⟩

end Restriction

def ofMessages : List RestrictionMessage → Except Panic (List Restriction)
  | [] => .ok []
  | message :: rest => (Restriction.ofMessage message).bind fun restriction =>
    (ofMessages rest).map fun later => restriction :: later

structure UserData where
  country : Text
  /-- The attribute `catalogue`. -/
  catalogue : Option Text
  deriving DecidableEq

inductive UnavailabilityReason where
  | blacklisted
  | embargo
  | noData
  | notWhitelisted
  deriving DecidableEq, Repr

abbrev AudioItemAvailability := Except UnavailabilityReason Unit

def UserData.userCatalogue (user : UserData) : Text := user.catalogue.getD "premium".toList

/-- The restriction is for the catalogue of the user. -/
def Restriction.names (restriction : Restriction) (user : UserData) : Bool :=
  restriction.catalogueStrs.any fun catalogue => catalogue == user.userCatalogue

/-- What the body of the loop returns, if it does. -/
def Restriction.decision (restriction : Restriction) (user : UserData) :
    Option AudioItemAvailability :=
  match restriction.countriesAllowed with
  | some allowed =>
    some (if allowed.any fun country => user.country == country then .ok ()
      else .error .notWhitelisted)
  | none =>
    match restriction.countriesForbidden with
    | some forbidden =>
      some (if forbidden.any fun country => user.country == country then .error .blacklisted
        else .ok ())
    | none => none

def allowedForUser (user : UserData) (restrictions : List Restriction) : AudioItemAvailability :=
  ((restrictions.filter fun restriction => restriction.names user).findSome? fun restriction =>
    restriction.decision user).getD (.ok ())

/-- The country is on the list of allowed countries and not on the list of forbidden ones, as far
as there are such lists. -/
def Permits (restriction : Restriction) (user : UserData) : Prop :=
  (∀ allowed, restriction.countriesAllowed = some allowed → user.country ∈ allowed) ∧
    ∀ forbidden, restriction.countriesForbidden = some forbidden → user.country ∉ forbidden

def AllPermit (restrictions : List Restriction) (user : UserData) : Prop :=
  ∀ restriction ∈ restrictions, restriction.names user = true → Permits restriction user

/-- The messages can be converted, the user is allowed exactly if every restriction permits it,
and the order does not matter. -/
def Conjunctive (user : UserData) (messages : List RestrictionMessage) : Prop :=
  ∃ restrictions, ofMessages messages = .ok restrictions ∧
    (allowedForUser user restrictions = .ok () ↔ AllPermit restrictions user) ∧
    ∀ reordered, reordered.Perm restrictions →
      (allowedForUser user reordered = .ok () ↔ allowedForUser user restrictions = .ok ())

/-- A text that falls into codes of two bytes. -/
def Coded (countryCodes : Text) : Prop :=
  ∃ codes : List Text, countryCodes = codes.flatten ∧ ∀ code ∈ codes, byteLength code = 2

def Convertible (message : RestrictionMessage) : Prop :=
  ∀ countryCodes, message.countriesAllowed = some countryCodes ∨
    message.countriesForbidden = some countryCodes → Coded countryCodes

section Conversion

theorem parseCountryCodes_returns {countryCodes : Text} :
    Returns (Restriction.parseCountryCodes countryCodes) ↔ Coded countryCodes := by
  constructor
  · rintro ⟨codes, parsed⟩
    exact ⟨codes, chunks_eq_ok.mp parsed⟩
  · rintro ⟨codes, split⟩
    exact ⟨codes, chunks_eq_ok.mpr split⟩

/-- A text with an odd number of bytes is cut behind its end. -/
theorem even_of_coded {countryCodes : Text} (coded : Coded countryCodes) :
    2 ∣ byteLength countryCodes := by
  obtain ⟨codes, rfl, two⟩ := coded
  induction codes with
  | nil => exact Nat.dvd_zero 2
  | cons code codes ih =>
    have first := two code List.mem_cons_self
    have rest := ih fun other inside => two other (List.mem_cons_of_mem _ inside)
    simp only [byteLength] at first rest ⊢
    rw [List.flatten_cons, List.map_append, List.sum_append, first]
    exact (Nat.dvd_add_right (Nat.dvd_refl 2)).mpr rest

theorem parseCountries_returns {countryCodes : Option Text} :
    Returns (Restriction.parseCountries countryCodes) ↔
      ∀ codes, countryCodes = some codes → Coded codes := by
  cases countryCodes with
  | none => simp [Restriction.parseCountries]
  | some codes =>
    rw [Restriction.parseCountries, returns_map, parseCountryCodes_returns]
    simp

theorem ofMessage_returns {message : RestrictionMessage} :
    Returns (Restriction.ofMessage message) ↔ Convertible message := by
  have split : Convertible message ↔
      Returns (Restriction.parseCountries message.countriesAllowed) ∧
        Returns (Restriction.parseCountries message.countriesForbidden) := by
    rw [parseCountries_returns, parseCountries_returns]
    simp only [Convertible, or_imp, forall_and]
  rw [split, Restriction.ofMessage, returns_bind]
  simp only [returns_bind_ok, exists_and_right]
  rfl

theorem ofMessages_returns {messages : List RestrictionMessage} :
    Returns (ofMessages messages) ↔ ∀ message ∈ messages, Convertible message := by
  induction messages with
  | nil => simp [ofMessages]
  | cons message rest ih =>
    rw [List.forall_mem_cons, ← ih, ← ofMessage_returns, ofMessages, returns_bind]
    simp only [returns_map, exists_and_right]
    rfl

end Conversion

section Decisions

variable {user : UserData} {restriction : Restriction} {restrictions : List Restriction}

theorem decision_of_permits (permits : Permits restriction user) {result : AudioItemAvailability}
    (decided : restriction.decision user = some result) : result = .ok () := by
  obtain ⟨whitelisted, notBlacklisted⟩ := permits
  simp only [Restriction.decision] at decided
  split at decided
  · next allowed listed =>
    have inside : allowed.any (fun country => user.country == country) = true := by
      simpa using whitelisted allowed listed
    rw [if_pos inside, Option.some.injEq] at decided
    exact decided.symm
  · split at decided
    · next forbidden listed =>
      have outside : ¬ forbidden.any (fun country => user.country == country) = true := by
        simpa using notBlacklisted forbidden listed
      rw [if_neg outside, Option.some.injEq] at decided
      exact decided.symm
    · cases decided

theorem permits_of_undecided (undecided : restriction.decision user = none) :
    Permits restriction user := by
  simp only [Restriction.decision] at undecided
  split at undecided
  · cases undecided
  · next noAllowed =>
    split at undecided
    · cases undecided
    · next noForbidden =>
      refine ⟨fun allowed listed => ?_, fun forbidden listed => ?_⟩
      · rw [noAllowed] at listed
        cases listed
      · rw [noForbidden] at listed
        cases listed

/-- The result is the decision of one of the restrictions, or there is no decision. -/
theorem allowedForUser_cases (user : UserData) (restrictions : List Restriction) :
    (∃ restriction ∈ restrictions, restriction.names user = true ∧
      restriction.decision user = some (allowedForUser user restrictions)) ∨
    (allowedForUser user restrictions = .ok () ∧ ∀ restriction ∈ restrictions,
      restriction.names user = true → restriction.decision user = none) := by
  rw [allowedForUser]
  cases first : (restrictions.filter fun restriction => restriction.names user).findSome?
      fun restriction => restriction.decision user with
  | some result =>
    obtain ⟨restriction, inside, decided⟩ := List.exists_of_findSome?_eq_some first
    obtain ⟨member, names⟩ := List.mem_filter.mp inside
    exact .inl ⟨restriction, member, names, decided⟩
  | none =>
    refine .inr ⟨rfl, fun restriction member names => ?_⟩
    exact List.findSome?_eq_none_iff.mp first restriction (List.mem_filter.mpr ⟨member, names⟩)

theorem allowed_of_allPermit (all : AllPermit restrictions user) :
    allowedForUser user restrictions = .ok () := by
  rcases allowedForUser_cases user restrictions with ⟨restriction, member, names, decided⟩ | nothing
  · exact decision_of_permits (all restriction member names) decided
  · exact nothing.1

/-- Where no restriction decides for the user, and one does not permit the country, the user is
not allowed. -/
theorem allPermit_of_allowed (allowed : allowedForUser user restrictions = .ok ())
    (against : ∀ restriction ∈ restrictions, restriction.names user = true →
      restriction.decision user ≠ some (.ok ())) : AllPermit restrictions user := by
  intro restriction member names
  rcases allowedForUser_cases user restrictions with ⟨other, inside, named, decided⟩ | nothing
  · rw [allowed] at decided
    exact absurd decided (against other inside named)
  · exact permits_of_undecided (nothing.2 restriction member names)

theorem allowed_of_first (names : restriction.names user = true)
    (favourable : restriction.decision user = some (.ok ())) (rest : List Restriction) :
    allowedForUser user (restriction :: rest) = .ok () := by
  have named : ((restriction :: rest).filter fun restriction => restriction.names user) =
      restriction :: rest.filter fun restriction => restriction.names user := by simp [names]
  rw [allowedForUser, named, List.findSome?_cons, favourable]
  rfl

theorem allPermit_perm {reordered : List Restriction} (perm : reordered.Perm restrictions) :
    AllPermit reordered user ↔ AllPermit restrictions user := by
  simp only [AllPermit, perm.mem_iff]

end Decisions

/-- The restrictions work together exactly if all texts fall into codes of two bytes and either
every restriction for the catalogue permits the country or none of them, looked at alone, lets the
user play. -/
theorem conjunctive_iff (user : UserData) (messages : List RestrictionMessage) :
    Conjunctive user messages ↔
      (∀ message ∈ messages, Convertible message) ∧
        ∀ restrictions, ofMessages messages = .ok restrictions →
          AllPermit restrictions user ∨ ∀ restriction ∈ restrictions,
            restriction.names user = true → restriction.decision user ≠ some (.ok ()) := by
  constructor
  · rintro ⟨restrictions, converted, precise, anyOrder⟩
    refine ⟨ofMessages_returns.mp ⟨restrictions, converted⟩, fun other same => ?_⟩
    obtain rfl := Except.ok.inj (converted.symm.trans same)
    by_cases all : AllPermit restrictions user
    · exact .inl all
    · refine .inr fun restriction member names favourable => all ?_
      have perm := (List.perm_cons_erase member).symm
      exact precise.mp ((anyOrder _ perm).mp (allowed_of_first names favourable _))
  · rintro ⟨convertible, agreed⟩
    obtain ⟨restrictions, converted⟩ := ofMessages_returns.mpr convertible
    have same {reordered : List Restriction} (perm : reordered.Perm restrictions) :
        allowedForUser user reordered = .ok () ↔ AllPermit restrictions user := by
      rw [← allPermit_perm perm]
      refine ⟨fun allowed => ?_, allowed_of_allPermit⟩
      rcases agreed restrictions converted with all | against
      · exact (allPermit_perm perm).mpr all
      · refine allPermit_of_allowed allowed fun restriction member => ?_
        exact against restriction (perm.mem_iff.mp member)
    refine ⟨restrictions, converted, same (.refl _), fun reordered perm => ?_⟩
    rw [same perm, same (.refl _)]

section Examples

def german : UserData := ⟨"DE".toList, none⟩

/-- Allowed by the first restriction, forbidden by the second one. -/
def whiteAndBlack : List RestrictionMessage :=
  [⟨["premium".toList], some "DEFR".toList, none⟩, ⟨["premium".toList], none, some "DE".toList⟩]

def threeBytes : List RestrictionMessage := [⟨["premium".toList], some "DEF".toList, none⟩]

theorem whiteAndBlack_notConjunctive :
    ¬ Conjunctive german whiteAndBlack ∧ ¬ Conjunctive german threeBytes := by
  constructor
  · rintro ⟨restrictions, converted, precise, -⟩
    have codes : Restriction.parseCountryCodes "DEFR".toList = .ok ["DE".toList, "FR".toList] ∧
        Restriction.parseCountryCodes "DE".toList = .ok ["DE".toList] :=
      ⟨chunks_eq_ok.mpr (by decide), chunks_eq_ok.mpr (by decide)⟩
    simp only [whiteAndBlack, ofMessages, Restriction.ofMessage, Restriction.parseCountries,
      codes.1, codes.2, Except.map, Except.bind, Except.ok.injEq] at converted
    subst converted
    have all := precise.mp (by decide)
    exact (all _ (List.mem_cons_of_mem _ List.mem_cons_self) (by decide)).2 _ rfl (by decide)
  · rintro ⟨restrictions, converted, -⟩
    have convertible := ofMessages_returns.mp ⟨restrictions, converted⟩
    have coded := convertible _ List.mem_cons_self _ (.inl rfl)
    exact absurd (even_of_coded coded) (by decide)

end Examples

end Restrictions
