import StarkbankTrial.Domain
import StarkbankTrial.IsoDates
import StarkbankTrial.UrlsafeBase64

/-!
# The text of a review cursor

A cursor holds the instant and the identifier of a row. The identifier may contain
bars itself: the text is split at its first bar, and the instant has none.
-/
namespace StarkbankTrial.ReviewCursors
open Domain IsoDates UrlsafeBase64

/-- The `datetime` of a stored timestamp. -/
def utc (t : ℤ) : DateTime := { wall := t, utcoffset := some 0 }

@[simp] theorem utc_instant (t : ℤ) : (utc t).instant = t := Int.sub_zero t

/-- `datetime.isoformat()` in UTC; a naive value is read as UTC. -/
def iso (value : Option DateTime) : Option String :=
  value.map fun t => String.ofList (isoformat t.instant)

def encodeUtf8 (text : String) : List UInt8 := text.toByteArray.data.toList

def decodeUtf8 (bytes : List UInt8) : Option String := String.fromUTF8? ⟨bytes.toArray⟩

def cursor (value : DateTime) (identifier : String) : String :=
  let raw := encodeUtf8 (String.ofList (isoformat value.instant ++ '|' :: identifier.toList))
  String.ofList (stripped (urlsafeB64encode raw))

/-- `text.split(bar, 1)` into two parts. -/
def splitOnce (bar : Char) : List Char → Option (List Char × List Char)
  | [] => none
  | c :: cs => if c = bar then some ([], cs) else (splitOnce bar cs).map fun p => (c :: p.1, p.2)

inductive ReviewError where
  | invalidCursor
deriving Repr, DecidableEq

/-- `str(error)`. -/
def ReviewError.message : ReviewError → String
  | .invalidCursor => "invalid cursor"

def parseCursor (value : String) : Option (DateTime × String) := do
  let bytes ← urlsafeB64decode (UrlsafeBase64.padded value.toList)
  let decoded ← decodeUtf8 bytes
  let (timestamp, identifier) ← splitOnce '|' decoded.toList
  let (wall, utcoffset) ← fromisoformat timestamp
  some ({ wall := wall, utcoffset := some (utcoffset.getD 0) }, String.ofList identifier)

def decodeCursor : Option String → Except ReviewError (Option (DateTime × String))
  | none => .ok none
  | some value =>
      match parseCursor value with
      | some parsed => .ok (some parsed)
      | none => .error .invalidCursor

theorem decodeUtf8_encodeUtf8 (text : String) : decodeUtf8 (encodeUtf8 text) = some text := by
  unfold decodeUtf8 encodeUtf8 String.fromUTF8?
  exact dif_pos text.isValidUTF8

theorem splitOnce_append {bar : Char} {a b : List Char} (h : bar ∉ a) :
    splitOnce bar (a ++ bar :: b) = some (a, b) := by
  induction a with
  | nil => simp [splitOnce]
  | cons c a ih =>
      rw [List.mem_cons, not_or] at h
      rw [List.cons_append, splitOnce, if_neg (Ne.symm h.1), ih h.2, Option.map_some]

/-- The UTC value fits into a `datetime`. -/
def Representable (value : DateTime) : Prop :=
  datetimeMin ≤ value.instant ∧ value.instant ≤ datetimeMax

/-- A cursor is read back as the instant and the identifier that it was made of. -/
theorem decodeCursor_cursor {value : DateTime} (h : Representable value) (identifier : String) :
    decodeCursor (some (cursor value identifier)) = .ok (some (utc value.instant, identifier)) := by
  have hparse : parseCursor (cursor value identifier) =
      some (utc value.instant, identifier) := by
    simp only [parseCursor, cursor, String.toList_ofList, urlsafeB64decode_encode,
      decodeUtf8_encodeUtf8, splitOnce_append (isoformat_bar value.instant),
      fromisoformat_isoformat h.1 h.2, Option.bind_eq_bind, Option.bind_some, Option.getD_some,
      String.ofList_toList, utc]
  rw [decodeCursor, hparse]

/-- Reading a cursor gives the same instant and exactly the identifier, so that one text
stands for one pair. -/
theorem cursor_read_back {value value' : DateTime} (identifier identifier' : String)
    (h : Representable value) (h' : Representable value') :
    (∃ parsed, decodeCursor (some (cursor value identifier)) = .ok (some (parsed, identifier)) ∧
      parsed.instant = value.instant) ∧
    (cursor value identifier = cursor value' identifier' →
      value.instant = value'.instant ∧ identifier = identifier') := by
  refine ⟨⟨_, decodeCursor_cursor h identifier, utc_instant _⟩, ?_⟩
  intro hcursor
  have hread := decodeCursor_cursor h identifier
  rw [hcursor, decodeCursor_cursor h' identifier'] at hread
  simp only [Except.ok.injEq, Option.some.injEq, Prod.mk.injEq] at hread
  exact ⟨by simpa using congrArg DateTime.instant hread.1.symm, hread.2.symm⟩

/-- A naive time and one with an offset, beside identifiers with bars and accents. -/
theorem cursor_read_back_bar :
    (∃ parsed, decodeCursor (some (cursor ⟨1785585600000001, none⟩ "a|b|é")) =
      .ok (some (parsed, "a|b|é")) ∧ parsed.instant = 1785585600000001) ∧
    (cursor ⟨1785585600000001, none⟩ "a|b|é" = cursor ⟨1785574800000001, some (-10800000000)⟩ "b" →
      (1785585600000001 : ℤ) = 1785585600000001 ∧ "a|b|é" = "b") :=
  cursor_read_back "a|b|é" "b" (by unfold Representable; decide) (by unfold Representable; decide)

/-- The naive time of an old cursor is read as UTC. -/
example : parseCursor "MjAyNi0wOC0wMVQxMjowMDowMHx0cmlhbC1jdXJzb3ItMg==" =
    some (utc 1785585600000000, "trial-cursor-2") := by
  decide +kernel

end StarkbankTrial.ReviewCursors
