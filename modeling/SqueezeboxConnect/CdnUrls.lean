import Mathlib.Algebra.Ring.Int.Defs
import Mathlib.Data.List.TakeWhile
import SqueezeboxConnect.Outcomes
import SqueezeboxConnect.Words

/-!
# Links to audio files and when they expire

A link carries the time of its expiry in its query, in one of four forms. The time
is cut out as a text, read as a number of seconds, turned into a date, and moved
ahead by a margin of five minutes.

The `url` crate takes a link apart, into its query and the decoded pairs of it. Of
the dates of the `time` crate only their laws are known.
-/

namespace CdnUrls

open Words

section Texts

/-- The parts in front of and behind the first such character. -/
def splitOnce (separator : Char) (text : Text) : Option (Text × Text) :=
  if separator ∈ text then
    some (text.takeWhile (· != separator), (text.dropWhile (· != separator)).tail)
  else none

def find (pattern : Text) : Text → Option Nat
  | [] => if pattern = [] then some 0 else none
  | c :: rest =>
    if pattern <+: c :: rest then some 0 else (find pattern rest).map (· + 1)

end Texts

section Expiry

structure Url where
  query : Option Text
  queryPairs : List (Text × Text)
  deriving DecidableEq

def Url.valueOf (key : String) (url : Url) : Option Text :=
  (url.queryPairs.find? fun pair => pair.1 = key.toList).map Prod.snd

def expiryText (url : Url) : Option Text :=
  match url.valueOf "verify" with
  | some token => (splitOnce '-' token).map Prod.fst
  | none =>
    match url.valueOf "__token__" with
    | some token => (find "exp=".toList token).map fun start =>
        (token.drop (start + 4)).takeWhile (· != '~')
    | none =>
      match url.valueOf "Expires" with
      | some token => (splitOnce '~' token).map Prod.fst
      | none => url.query.map fun query => query.takeWhile (· != '_')

def parseI64 (text : Text) : Option Int := parseSigned (2 ^ 63) text

def isI64 (n : Int) : Bool := -2 ^ 63 ≤ n && n < 2 ^ 63

inductive Overflow where
  | multiplication
  deriving DecidableEq

/-- `n * 1_000` for an `i64`. -/
def thousandfold (overflowChecks : Bool) (n : Int) : Except Overflow Int :=
  if isI64 (n * 1000) then .ok (n * 1000)
  else if overflowChecks then .error .multiplication
  else .ok ((n * 1000 + 2 ^ 63) % 2 ^ 64 - 2 ^ 63)

/-- In seconds. -/
def CDN_URL_EXPIRY_MARGIN : Nat := 5 * 60

/-- The first and the last second of the calendar, which is from the year -9999 to 9999. -/
def minSecond : Int := -377705116800

def maxSecond : Int := 253402300799

def Representable (second : Int) : Prop := minSecond ≤ second ∧ second ≤ maxSecond

instance (second : Int) : Decidable (Representable second) := inferInstanceAs (Decidable (_ ∧ _))

/-- The dates of the `time` crate, one for every nanosecond of the calendar. -/
structure Calendar (D : Type) where
  fromUnixTimestampNanos : Int → Option D
  /-- So many seconds earlier, or the first date of all. -/
  saturatingSub : D → Nat → D
  represents : ∀ nanos, (fromUnixTimestampNanos nanos).isSome = true ↔
    Representable (nanos / 1000000000)
  earlier : ∀ (nanos : Int) (date : D) (seconds : Nat), fromUnixTimestampNanos nanos = some date →
    Representable ((nanos - seconds * 1000000000) / 1000000000) →
      fromUnixTimestampNanos (nanos - seconds * 1000000000) = some (saturatingSub date seconds)

variable {D : Type} (calendar : Calendar D)

def fromTimestampMs (timestamp : Int) : Option D :=
  calendar.fromUnixTimestampNanos (timestamp * 1000000)

def expiryOf (overflowChecks : Bool) (text : Option Text) : Except Overflow (Option D) :=
  match text.bind parseI64 with
  | none => .ok none
  | some seconds =>
    (thousandfold overflowChecks seconds).map fun timestamp =>
      (fromTimestampMs calendar timestamp).map fun date =>
        calendar.saturatingSub date CDN_URL_EXPIRY_MARGIN

end Expiry

section Messages

inductive StorageResolveResult where
  | cdn
  | storage
  | restricted
  deriving DecidableEq

/-- A value that is not known counts as the first one. -/
def StorageResolveResult.ofValue (value : Int) : StorageResolveResult :=
  if value = 1 then .storage else if value = 3 then .restricted else .cdn

structure CdnUrlMessage where
  result : Int
  cdnurl : List Text
  fileid : Bytes

structure MaybeExpiringUrl (D : Type) where
  url : Text
  expiry : Option D

inductive CdnUrlError where
  | storage
  | parse

variable {D : Type} (calendar : Calendar D) (parse : Text → Option Url) (overflowChecks : Bool)

/-- The links one after the other, up to one that is no link. -/
def convert (isExpiring : Bool) :
    List Text → Except Overflow (Except CdnUrlError (List (MaybeExpiringUrl D)))
  | [] => .ok (.ok [])
  | cdnUrl :: rest =>
    match parse cdnUrl with
    | none => .ok (.error .parse)
    | some url =>
      (if isExpiring then expiryOf calendar overflowChecks (expiryText url) else .ok none).bind
        fun expiry => (convert isExpiring rest).map fun later =>
          later.map fun urls => ⟨cdnUrl, expiry⟩ :: urls

def tryFrom (msg : CdnUrlMessage) :
    Except Overflow (Except CdnUrlError (List (MaybeExpiringUrl D))) :=
  if StorageResolveResult.ofValue msg.result ≠ .cdn then .ok (.error .storage)
  else convert calendar parse overflowChecks (msg.fileid ≠ []) msg.cdnurl

end Messages

section Forms

inductive Form where
  | verify
  | token
  | expires
  | bare
  deriving DecidableEq

/-- The link has this form, with such a text for the time. -/
def Form.Recognises (form : Form) (url : Url) (text : Text) : Prop :=
  match form with
  | .verify => ∃ rest, url.valueOf "verify" = some (text ++ '-' :: rest)
  | .token => url.valueOf "verify" = none ∧ ∃ rest, (∀ c ∈ rest.head?, c = '~') ∧
      url.valueOf "__token__" = some ("exp=".toList ++ (text ++ rest))
  | .expires => url.valueOf "verify" = none ∧ url.valueOf "__token__" = none ∧
      ∃ rest, url.valueOf "Expires" = some (text ++ '~' :: rest)
  | .bare => url.valueOf "verify" = none ∧ url.valueOf "__token__" = none ∧
      url.valueOf "Expires" = none ∧
      ∃ rest, (∀ c ∈ rest.head?, c = '_') ∧ url.query = some (text ++ rest)

/-- A link of one of the four forms with a time in seconds. -/
structure TokenUrl (parse : Text → Option Url) where
  url : Text
  link : Url
  form : Form
  text : Text
  seconds : Int
  parsed : parse url = some link
  recognised : form.Recognises link text
  number : parseI64 text = some seconds

variable {D : Type} (calendar : Calendar D) {parse : Text → Option Url}

/-- The time with the margin, if there is such a date. -/
def expected (seconds : Int) : Option D :=
  calendar.fromUnixTimestampNanos ((seconds - CDN_URL_EXPIRY_MARGIN) * 1000000000)

/-- The links stay as they are and get the right expiries, in a build that checks for overflows as
in one that does not. -/
def Kept (result : Int) (fileid : Bytes) (tokens : List (TokenUrl parse)) : Prop :=
  ∀ overflowChecks, tryFrom calendar parse overflowChecks ⟨result, tokens.map TokenUrl.url,
    fileid⟩ =
    .ok (.ok (tokens.map fun token => ⟨token.url, expected calendar token.seconds⟩))

/-- The time is not read at all. -/
def Unread (fileid : Bytes) (token : TokenUrl parse) : Prop :=
  fileid = [] ∨ token.form = .verify ∧ token.text.head? = some '-'

instance (fileid : Bytes) (token : TokenUrl parse) : Decidable (Unread fileid token) :=
  inferInstanceAs (Decidable (_ ∨ _ ∧ _))

/-- The time can be multiplied, and is not near the ends of the calendar. -/
def Ordinary (seconds : Int) : Prop :=
  -9223372036854775 ≤ seconds ∧ seconds ≤ 9223372036854775 ∧
    ¬ (minSecond ≤ seconds ∧ seconds < minSecond + CDN_URL_EXPIRY_MARGIN) ∧
    ¬ (maxSecond < seconds ∧ seconds ≤ maxSecond + CDN_URL_EXPIRY_MARGIN)

instance (seconds : Int) : Decidable (Ordinary seconds) :=
  inferInstanceAs (Decidable (_ ∧ _ ∧ _ ∧ _))

end Forms

section Extraction

variable {separator : Char}

theorem takeWhile_bne {front rest : Text} (absent : separator ∉ front)
    (stops : ∀ c ∈ rest.head?, c = separator) :
    (front ++ rest).takeWhile (· != separator) = front := by
  have all : ∀ c ∈ front, (c != separator) = true := by
    intro c inside
    simpa using fun same : c = separator => absent (same ▸ inside)
  rw [List.takeWhile_append_of_pos all]
  cases rest with
  | nil => simp
  | cons c rest =>
    rw [List.takeWhile_cons_of_neg (by simp [stops c rfl]), List.append_nil]

theorem splitOnce_append {front rest : Text} (absent : separator ∉ front) :
    (splitOnce separator (front ++ separator :: rest)).map Prod.fst = some front := by
  rw [splitOnce, if_pos (by simp), Option.map_some, takeWhile_bne absent (by simp)]

section

variable {text : Text} {n : Int} (number : parseI64 text = some n)
include number

theorem not_mem_number (other : separator.isDigit = false ∧ separator ≠ '-' ∧ separator ≠ '+') :
    separator ∉ text := by
  intro inside
  rcases parseSigned_chars number inside with digit | ⟨-, minus | plus⟩
  · rw [other.1] at digit
    cases digit
  · exact other.2.1 minus
  · exact other.2.2 plus

theorem dash_not_mem (unsigned : text.head? ≠ some '-') : '-' ∉ text := by
  intro inside
  rcases parseSigned_chars number inside with digit | ⟨first, -⟩
  · exact absurd digit (by decide)
  · exact unsigned first

end

theorem find_here (pattern rest : Text) : find pattern (pattern ++ rest) = some 0 := by
  cases pattern with
  | nil =>
    cases rest with
    | nil => rfl
    | cons c rest => simp [find]
  | cons c pattern => simp [find]

variable {parse : Text → Option Url}

theorem expiryText_token (token : TokenUrl parse) :
    expiryText token.link =
      if token.form = .verify ∧ token.text.head? = some '-' then some [] else some token.text := by
  have number := token.number
  have recognised := token.recognised
  rw [expiryText]
  cases form : token.form with
  | verify =>
    rw [form] at recognised
    obtain ⟨rest, value⟩ := recognised
    simp only [value, true_and]
    split
    · next dash =>
      obtain ⟨digits, same⟩ := List.head?_eq_some_iff.mp dash
      rw [same, splitOnce, if_pos (by simp)]
      simp
    · next unsigned => exact splitOnce_append (dash_not_mem number unsigned)
  | token =>
    rw [form] at recognised
    obtain ⟨noVerify, rest, ends, value⟩ := recognised
    simp only [noVerify, value, reduceCtorEq, false_and, if_false]
    rw [find_here, Option.map_some]
    have behind : ("exp=".toList ++ (token.text ++ rest)).drop (0 + 4) = token.text ++ rest :=
      List.drop_left' (by decide)
    rw [behind, takeWhile_bne (not_mem_number number (by decide)) ends]
  | expires =>
    rw [form] at recognised
    obtain ⟨noVerify, noToken, rest, value⟩ := recognised
    simp only [noVerify, noToken, value, reduceCtorEq, false_and, if_false]
    exact splitOnce_append (not_mem_number number (by decide))
  | bare =>
    rw [form] at recognised
    obtain ⟨noVerify, noToken, noExpires, rest, ends, query⟩ := recognised
    simp only [noVerify, noToken, noExpires, reduceCtorEq, false_and, if_false]
    rw [query, Option.map_some, takeWhile_bne (not_mem_number number (by decide)) ends]

end Extraction

section Arithmetic

variable {D : Type} (calendar : Calendar D)

/-- What becomes of a time that can be multiplied. -/
def moved (timestamp : Int) : Option D :=
  (fromTimestampMs calendar timestamp).map fun date =>
    calendar.saturatingSub date CDN_URL_EXPIRY_MARGIN

theorem moved_isSome (seconds : Int) :
    (moved calendar (seconds * 1000)).isSome = true ↔ Representable seconds := by
  have second : seconds * 1000 * 1000000 / 1000000000 = seconds := by omega
  rw [moved, Option.isSome_map, fromTimestampMs, calendar.represents, second]

theorem expected_isSome (seconds : Int) : (expected calendar seconds).isSome = true ↔
    Representable (seconds - CDN_URL_EXPIRY_MARGIN) := by
  rw [expected, calendar.represents, Int.mul_ediv_cancel _ (by decide)]

theorem moved_eq {seconds : Int} (inside : Representable seconds)
    (earlier : Representable (seconds - CDN_URL_EXPIRY_MARGIN)) :
    moved calendar (seconds * 1000) = expected calendar seconds := by
  have nanos : seconds * 1000 * 1000000 - (CDN_URL_EXPIRY_MARGIN : Int) * 1000000000 =
      (seconds - CDN_URL_EXPIRY_MARGIN) * 1000000000 := by omega
  obtain ⟨date, found⟩ : ∃ date, fromTimestampMs calendar (seconds * 1000) = some date := by
    have moves := (moved_isSome calendar seconds).mpr inside
    rw [moved, Option.isSome_map] at moves
    exact Option.isSome_iff_exists.mp moves
  have exists_ := calendar.earlier _ date CDN_URL_EXPIRY_MARGIN found
    (by rwa [nanos, Int.mul_ediv_cancel _ (by decide)])
  rw [moved, found, expected, ← nanos, exists_, Option.map_some]

/-- The date is the right one exactly if the time and the time with the margin are both in the
calendar or both outside. -/
theorem moved_eq_iff (seconds : Int) : moved calendar (seconds * 1000) = expected calendar seconds ↔
    (Representable seconds ↔ Representable (seconds - CDN_URL_EXPIRY_MARGIN)) := by
  constructor
  · intro same
    rw [← moved_isSome calendar, ← expected_isSome calendar, same]
  · intro both
    by_cases inside : Representable seconds
    · exact moved_eq calendar inside (both.mp inside)
    · have nothing := (moved_isSome calendar seconds).not.mpr inside
      have nothing' := (expected_isSome calendar seconds).not.mpr (both.not.mp inside)
      rw [Option.not_isSome_iff_eq_none] at nothing nothing'
      rw [nothing, nothing']

theorem expiryOf_number (overflowChecks : Bool) {text : Text} {seconds : Int}
    (number : parseI64 text = some seconds) :
    expiryOf calendar overflowChecks (some text) =
      (thousandfold overflowChecks seconds).map (moved calendar) := by
  rw [expiryOf, Option.bind_some, number]
  rfl

theorem ordinary_iff (seconds : Int) : Ordinary seconds ↔ isI64 (seconds * 1000) = true ∧
    (Representable seconds ↔ Representable (seconds - CDN_URL_EXPIRY_MARGIN)) := by
  simp only [Ordinary, isI64, Representable, minSecond, maxSecond, CDN_URL_EXPIRY_MARGIN,
    Bool.and_eq_true, decide_eq_true_eq]
  omega

/-- A time that is read gives the right expiry exactly if it is an ordinary one. -/
theorem thousandfold_iff (seconds : Int) :
    (∀ overflowChecks, (thousandfold overflowChecks seconds).map (moved calendar) =
      .ok (expected calendar seconds)) ↔ Ordinary seconds := by
  rw [ordinary_iff, ← moved_eq_iff calendar]
  constructor
  · intro right
    have checked := right true
    rw [thousandfold] at checked
    split at checked
    · next fits => exact ⟨fits, Except.ok.inj checked⟩
    · cases checked
  · rintro ⟨fits, same⟩ overflowChecks
    rw [thousandfold, if_pos fits]
    exact congrArg _ same

end Arithmetic

section Lists

variable {D : Type} (calendar : Calendar D) {parse : Text → Option Url}

def Sound (fileid : Bytes) (token : TokenUrl parse) : Prop :=
  if Unread fileid token then ¬ Representable (token.seconds - CDN_URL_EXPIRY_MARGIN)
  else Ordinary token.seconds

def TokenUrl.expiry (overflowChecks : Bool) (fileid : Bytes) (token : TokenUrl parse) :
    Except Overflow (Option D) :=
  if decide (fileid ≠ []) then expiryOf calendar overflowChecks (expiryText token.link)
  else .ok none

theorem expiry_iff (fileid : Bytes) (token : TokenUrl parse) :
    (∀ overflowChecks, token.expiry calendar overflowChecks fileid =
      .ok (expected calendar token.seconds)) ↔ Sound fileid token := by
  have text := expiryText_token token
  rw [Sound]
  split
  · next unread =>
    have nothing : ∀ overflowChecks, token.expiry calendar overflowChecks fileid = .ok none := by
      intro overflowChecks
      rw [TokenUrl.expiry]
      rcases unread with rfl | dash
      · rfl
      · rw [text, if_pos dash]
        split <;> rfl
    rw [← expected_isSome calendar, Option.not_isSome_iff_eq_none]
    constructor
    · intro right
      have both := (nothing true).symm.trans (right true)
      exact (Except.ok.inj both).symm
    · intro missing overflowChecks
      rw [nothing, missing]
  · next unread =>
    rw [Unread, not_or] at unread
    obtain ⟨expiring, noDash⟩ := unread
    rw [← thousandfold_iff calendar]
    refine forall_congr' fun overflowChecks => ?_
    rw [TokenUrl.expiry, if_pos (decide_eq_true expiring), text, if_neg noDash,
      expiryOf_number calendar overflowChecks token.number]

theorem convert_cons (overflowChecks : Bool) (fileid : Bytes) (token : TokenUrl parse)
    (rest : List Text) :
    convert calendar parse overflowChecks (fileid ≠ []) (token.url :: rest) =
      (token.expiry calendar overflowChecks fileid).bind fun expiry =>
        (convert calendar parse overflowChecks (fileid ≠ []) rest).map fun later =>
          later.map fun urls => ⟨token.url, expiry⟩ :: urls := by
  rw [convert, token.parsed]
  rfl

theorem convert_iff (overflowChecks : Bool) (fileid : Bytes) (tokens : List (TokenUrl parse)) :
    convert calendar parse overflowChecks (fileid ≠ []) (tokens.map TokenUrl.url) =
        .ok (.ok (tokens.map fun token => ⟨token.url, expected calendar token.seconds⟩)) ↔
      ∀ token ∈ tokens,
        token.expiry calendar overflowChecks fileid = .ok (expected calendar token.seconds) := by
  induction tokens with
  | nil => exact iff_of_true rfl nofun
  | cons token tokens ih =>
    rw [List.map_cons, convert_cons, List.forall_mem_cons, ← ih]
    constructor
    · intro converted
      obtain ⟨expiry, here, converted⟩ := Outcomes.ok_of_bind converted
      obtain ⟨later, others, listed⟩ := Outcomes.map_eq_ok_iff.mp converted
      obtain ⟨urls, rfl, same⟩ := Outcomes.map_eq_ok_iff.mp listed
      obtain ⟨first, rfl⟩ := List.cons.inj same
      rw [MaybeExpiringUrl.mk.injEq] at first
      exact ⟨first.2 ▸ here, others⟩
    · rintro ⟨here, others⟩
      rw [here, others]
      rfl

theorem kept_cdn_iff {result : Int} (cdn : StorageResolveResult.ofValue result = .cdn)
    (fileid : Bytes) (tokens : List (TokenUrl parse)) :
    Kept calendar result fileid tokens ↔ ∀ token ∈ tokens, Sound fileid token := by
  have all : Kept calendar result fileid tokens ↔ ∀ overflowChecks, ∀ token ∈ tokens,
      token.expiry calendar overflowChecks fileid = .ok (expected calendar token.seconds) := by
    refine forall_congr' fun overflowChecks => ?_
    rw [tryFrom, if_neg (not_not_intro cdn)]
    exact convert_iff calendar overflowChecks fileid tokens
  rw [all]
  constructor
  · intro right token inside
    exact (expiry_iff calendar fileid token).mp
      fun overflowChecks => right overflowChecks token inside
  · intro sound overflowChecks token inside
    exact (expiry_iff calendar fileid token).mpr (sound token inside) overflowChecks

/-- The links are kept with the right expiries exactly if the message is about a CDN, and every
link has an ordinary time that is read, or a time without an expiry that is not. -/
theorem kept_iff (result : Int) (fileid : Bytes) (tokens : List (TokenUrl parse)) :
    Kept calendar result fileid tokens ↔
      StorageResolveResult.ofValue result = .cdn ∧ ∀ token ∈ tokens, Sound fileid token := by
  by_cases cdn : StorageResolveResult.ofValue result = .cdn
  · rw [kept_cdn_iff calendar cdn, and_iff_right cdn]
  · refine iff_of_false (fun kept => ?_) fun both => cdn both.1
    have refused := kept true
    rw [tryFrom, if_pos cdn] at refused
    cases refused

end Lists

section Links

/-- Dates in nanoseconds. -/
def plainCalendar : Calendar Int where
  fromUnixTimestampNanos nanos :=
    if Representable (nanos / 1000000000) then some nanos else none
  saturatingSub nanos seconds :=
    if Representable ((nanos - seconds * 1000000000) / 1000000000) then
      nanos - seconds * 1000000000
    else minSecond * 1000000000
  represents nanos := by
    split <;> simp_all
  earlier nanos date seconds found inside := by
    split at found
    · cases found
      rw [if_pos inside, if_pos inside]
    · cases found

/-- One pair behind the question mark, or none. -/
def plainParse (url : Text) : Option Url :=
  let query := (splitOnce '?' url).map Prod.snd
  some ⟨query, (query.bind (splitOnce '=')).toList⟩

def largest : TokenUrl plainParse where
  url := "https://a/b?Expires=9223372036854775807~c".toList
  link := ⟨some "Expires=9223372036854775807~c".toList,
    [("Expires".toList, "9223372036854775807~c".toList)]⟩
  form := .expires
  text := "9223372036854775807".toList
  seconds := 9223372036854775807
  parsed := by decide +kernel
  recognised := ⟨by decide +kernel, by decide +kernel, ['c'], by decide +kernel⟩
  number := by decide +kernel

/-- The first second of the calendar. -/
def earliest : TokenUrl plainParse where
  url := "https://a/b?__token__=exp=-377705116800~hmac=c".toList
  link := ⟨some "__token__=exp=-377705116800~hmac=c".toList,
    [("__token__".toList, "exp=-377705116800~hmac=c".toList)]⟩
  form := .token
  text := "-377705116800".toList
  seconds := -377705116800
  parsed := by decide +kernel
  recognised := ⟨by decide +kernel, "~hmac=c".toList, by simp, by decide +kernel⟩
  number := by decide +kernel

/-- The second behind the calendar. -/
def latest : TokenUrl plainParse where
  url := "https://a/b?253402300800_c".toList
  link := ⟨some "253402300800_c".toList, []⟩
  form := .bare
  text := "253402300800".toList
  seconds := 253402300800
  parsed := by decide +kernel
  recognised := ⟨rfl, rfl, rfl, "_c".toList, by simp, by decide +kernel⟩
  number := by decide +kernel

def negative : TokenUrl plainParse where
  url := "https://a/b?verify=-5-c".toList
  link := ⟨some "verify=-5-c".toList, [("verify".toList, "-5-c".toList)]⟩
  form := .verify
  text := "-5".toList
  seconds := -5
  parsed := by decide +kernel
  recognised := ⟨['c'], by decide +kernel⟩
  number := by decide +kernel

theorem largest_notKept :
    ¬ Kept plainCalendar 0 [0] [largest] ∧ ¬ Kept plainCalendar 0 [0] [earliest] ∧
      ¬ Kept plainCalendar 0 [0] [latest] ∧ ¬ Kept plainCalendar 0 [0] [negative] := by
  have cdn : StorageResolveResult.ofValue 0 = .cdn := rfl
  simp only [kept_cdn_iff plainCalendar cdn, List.forall_mem_singleton]
  refine ⟨?_, ?_, ?_, ?_⟩
  · rw [Sound, if_neg (by decide)]
    decide
  · rw [Sound, if_neg (by decide)]
    decide
  · rw [Sound, if_neg (by decide)]
    decide
  · rw [Sound, if_pos (by decide)]
    decide

end Links

end CdnUrls
