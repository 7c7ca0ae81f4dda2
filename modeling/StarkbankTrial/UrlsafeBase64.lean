import Mathlib.Data.List.DropRight
import Mathlib.Tactic.SplitIfs

/-!
# URL-safe base64 without padding

`urlsafe_b64encode` and `urlsafe_b64decode` of the standard library, with the
padding taken off a text and put back. The decoder is lenient: it skips every
character outside the alphabet and stops at a complete padding.
-/
namespace StarkbankTrial.UrlsafeBase64

def alphabet : List Char :=
  "ABCDEFGHIJKLMNOPQRSTUVWXYZabcdefghijklmnopqrstuvwxyz0123456789-_".toList

def digit (n : ℕ) : Char := alphabet.getD n 'A'

/-- The decoder also reads the standard alphabet. -/
def digitValue (c : Char) : Option ℕ :=
  if c = '+' then some 62 else if c = '/' then some 63 else alphabet.idxOf? c

def sextets : List UInt8 → List ℕ
  | a :: b :: c :: rest =>
      a.toNat / 4 :: (a.toNat % 4 * 16 + b.toNat / 16) ::
        (b.toNat % 16 * 4 + c.toNat / 64) :: c.toNat % 64 :: sextets rest
  | [a, b] => [a.toNat / 4, a.toNat % 4 * 16 + b.toNat / 16, b.toNat % 16 * 4]
  | [a] => [a.toNat / 4, a.toNat % 4 * 16]
  | [] => []

/-- `text + "=" * (-len(text) % 4)`. -/
def padded (text : List Char) : List Char :=
  text ++ List.replicate ((4 - text.length % 4) % 4) '='

/-- `text.rstrip("=")`. -/
def stripped (text : List Char) : List Char := text.rdropWhile (· == '=')

def urlsafeB64encode (bytes : List UInt8) : List Char := padded ((sextets bytes).map digit)

/-- The loop of the decoder: the digits of the current quantum that were read, the bits
left over from the last of them, and the padding seen after it. -/
def a2b (quadPos leftchar pads : ℕ) : List Char → Option (List UInt8)
  | [] => if quadPos = 0 then some [] else none
  | c :: cs =>
      if c = '=' then
        if quadPos < 2 then a2b quadPos leftchar pads cs
        else if 4 ≤ quadPos + (pads + 1) then some []
        else a2b quadPos leftchar (pads + 1) cs
      else
        match digitValue c, quadPos with
        | none, _ => a2b quadPos leftchar pads cs
        | some v, 0 => a2b 1 v 0 cs
        | some v, 1 => (a2b 2 (v % 16) 0 cs).map (UInt8.ofNat (leftchar * 4 + v / 16) :: ·)
        | some v, 2 => (a2b 3 (v % 4) 0 cs).map (UInt8.ofNat (leftchar * 16 + v / 4) :: ·)
        | some v, _ => (a2b 0 0 0 cs).map (UInt8.ofNat (leftchar * 64 + v) :: ·)

/-- A text with a character that is not ASCII is refused. -/
def urlsafeB64decode (text : List Char) : Option (List UInt8) :=
  if text.all (·.val < 128) then a2b 0 0 0 text else none

/-! ### Digits -/

set_option maxRecDepth 4000 in
theorem digit_facts : ∀ n < 64,
    digitValue (digit n) = some n ∧ digit n ≠ '=' ∧ (digit n).val < 128 := by
  decide

variable {n v leftchar pads : ℕ} {cs : List Char}

theorem a2b_first (hv : v < 64) : a2b 0 leftchar pads (digit v :: cs) = a2b 1 v 0 cs := by
  simp [a2b, digit_facts v hv]

theorem a2b_second (hv : v < 64) : a2b 1 leftchar pads (digit v :: cs) =
    (a2b 2 (v % 16) 0 cs).map (UInt8.ofNat (leftchar * 4 + v / 16) :: ·) := by
  simp [a2b, digit_facts v hv]

theorem a2b_third (hv : v < 64) : a2b 2 leftchar pads (digit v :: cs) =
    (a2b 3 (v % 4) 0 cs).map (UInt8.ofNat (leftchar * 16 + v / 4) :: ·) := by
  simp [a2b, digit_facts v hv]

theorem a2b_fourth (hv : v < 64) : a2b 3 leftchar pads (digit v :: cs) =
    (a2b 0 0 0 cs).map (UInt8.ofNat (leftchar * 64 + v) :: ·) := by
  simp [a2b, digit_facts v hv]

theorem a2b_one_pad : a2b 3 leftchar 0 ['='] = some [] := rfl

theorem a2b_two_pads : a2b 2 leftchar 0 ['=', '='] = some [] := rfl

theorem sextets_lt {bytes : List UInt8} : ∀ n ∈ sextets bytes, n < 64 := by
  fun_induction sextets bytes with
  | case1 a b c rest ih =>
      have ha := a.toNat_lt
      have hb := b.toNat_lt
      have hc := c.toNat_lt
      simp only [List.mem_cons, forall_eq_or_imp]
      exact ⟨by omega, by omega, by omega, by omega, ih⟩
  | case2 a b =>
      have ha := a.toNat_lt
      have hb := b.toNat_lt
      simp only [List.mem_cons, forall_eq_or_imp, List.not_mem_nil, false_implies, implies_true,
        and_true]
      omega
  | case3 a =>
      have ha := a.toNat_lt
      simp only [List.mem_cons, forall_eq_or_imp, List.not_mem_nil, false_implies, implies_true,
        and_true]
      omega
  | case4 => simp

/-! ### Round trip -/

theorem padded_length_add {l : List Char} :
    (4 - (l.length + 4) % 4) % 4 = (4 - l.length % 4) % 4 := by omega

theorem a2b_encode (bytes : List UInt8) : a2b 0 0 0 (urlsafeB64encode bytes) = some bytes := by
  unfold urlsafeB64encode
  fun_induction sextets bytes with
  | case1 a b c rest ih =>
      have ha := a.toNat_lt
      have hb := b.toNat_lt
      have hc := c.toNat_lt
      have hpad : ((sextets rest).map digit).length + 1 + 1 + 1 + 1 =
        ((sextets rest).map digit).length + 4 := rfl
      simp only [padded] at ih
      simp only [padded, List.map_cons, List.length_cons, hpad, padded_length_add,
        List.cons_append]
      rw [a2b_first (by omega), a2b_second (by omega), a2b_third (by omega),
        a2b_fourth (by omega), ih]
      have e₁ : a.toNat / 4 * 4 + (a.toNat % 4 * 16 + b.toNat / 16) / 16 = a.toNat := by omega
      have e₂ : (a.toNat % 4 * 16 + b.toNat / 16) % 16 * 16 +
        (b.toNat % 16 * 4 + c.toNat / 64) / 4 = b.toNat := by omega
      have e₃ : (b.toNat % 16 * 4 + c.toNat / 64) % 4 * 64 + c.toNat % 64 = c.toNat := by omega
      simp only [Option.map_some, e₁, e₂, e₃, UInt8.ofNat_toNat]
  | case2 a b =>
      have ha := a.toNat_lt
      have hb := b.toNat_lt
      have e₁ : a.toNat / 4 * 4 + (a.toNat % 4 * 16 + b.toNat / 16) / 16 = a.toNat := by omega
      have e₂ : (a.toNat % 4 * 16 + b.toNat / 16) % 16 * 16 + b.toNat % 16 * 4 / 4 = b.toNat := by
        omega
      change a2b 0 0 0 [digit _, digit _, digit _, '='] = _
      rw [a2b_first (by omega), a2b_second (by omega), a2b_third (by omega), a2b_one_pad]
      simp only [Option.map_some, e₁, e₂, UInt8.ofNat_toNat]
  | case3 a =>
      have ha := a.toNat_lt
      have e₁ : a.toNat / 4 * 4 + a.toNat % 4 * 16 / 16 = a.toNat := by omega
      change a2b 0 0 0 [digit _, digit _, '=', '='] = _
      rw [a2b_first (by omega), a2b_second (by omega), a2b_two_pads]
      simp only [Option.map_some, e₁, UInt8.ofNat_toNat]
  | case4 => simp [padded, a2b]

theorem stripped_padded {text : List Char} (h : ∀ c ∈ text, c ≠ '=') :
    stripped (padded text) = text := by
  unfold stripped padded
  induction (4 - text.length % 4) % 4 with
  | zero =>
      rw [List.replicate_zero, List.append_nil, List.rdropWhile_eq_self_iff]
      intro hne
      simpa using h _ (List.getLast_mem hne)
  | succ n ih =>
      rw [List.replicate_succ', ← List.append_assoc, List.rdropWhile_concat_pos _ _ _ (by simp)]
      exact ih

theorem digits_ne {bytes : List UInt8} : ∀ c ∈ (sextets bytes).map digit, c ≠ '=' := by
  intro c hc
  obtain ⟨n, hn, rfl⟩ := List.mem_map.mp hc
  exact (digit_facts n (sextets_lt n hn)).2.1

/-- What is encoded and stripped is read back once the padding is put back. -/
theorem urlsafeB64decode_encode (bytes : List UInt8) :
    urlsafeB64decode (padded (stripped (urlsafeB64encode bytes))) = some bytes := by
  have hstrip : stripped (urlsafeB64encode bytes) = (sextets bytes).map digit :=
    stripped_padded digits_ne
  have hascii : (urlsafeB64encode bytes).all (·.val < 128) = true := by
    rw [List.all_eq_true]
    intro c hc
    rw [urlsafeB64encode, padded, List.mem_append, List.mem_map, List.mem_replicate] at hc
    rcases hc with ⟨n, hn, rfl⟩ | ⟨-, rfl⟩
    · exact decide_eq_true (digit_facts n (sextets_lt n hn)).2.2
    · decide
  rw [hstrip]
  change urlsafeB64decode (urlsafeB64encode bytes) = some bytes
  rw [urlsafeB64decode, if_pos hascii, a2b_encode]

end StarkbankTrial.UrlsafeBase64
