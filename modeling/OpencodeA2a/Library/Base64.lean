import Mathlib.Data.List.Basic
import Mathlib.Data.List.Infix
import Mathlib.Data.List.TakeWhile
import Mathlib.Tactic.Common

/-!
# Base64 and data URLs

The standard alphabet with padding, and the URLs that hold such a text with its media type in
front. What is decoded from an encoding is what was encoded; from a data URL it is the same, media
type and all, unless the media type itself has the comma that ends it.
-/

namespace OpencodeA2a.Base64

/-! ## §1  Base64 -/

def alphabet : List Char :=
  "ABCDEFGHIJKLMNOPQRSTUVWXYZabcdefghijklmnopqrstuvwxyz0123456789+/".toList

/-- The character of six bits. -/
def symbol (n : ℕ) : Char := alphabet.getD n '='

def value (c : Char) : Option ℕ := alphabet.findIdx? (· = c)

def encode : List UInt8 → List Char
  | [] => []
  | [a] => [symbol (a.toNat / 4), symbol (a.toNat % 4 * 16), '=', '=']
  | [a, b] =>
      [symbol (a.toNat / 4), symbol (a.toNat % 4 * 16 + b.toNat / 16), symbol (b.toNat % 16 * 4), '=']
  | a :: b :: c :: bytes =>
      symbol (a.toNat / 4) :: symbol (a.toNat % 4 * 16 + b.toNat / 16) ::
        symbol (b.toNat % 16 * 4 + c.toNat / 64) :: symbol (c.toNat % 64) :: encode bytes

/-- Two characters in front of the padding. -/
def decodeOne (w x : Char) : Option (List UInt8) :=
  match value w, value x with
  | some w, some x => if x % 16 = 0 then some [UInt8.ofNat (w * 4 + x / 16)] else none
  | _, _ => none

def decodeTwo (w x y : Char) : Option (List UInt8) :=
  match value w, value x, value y with
  | some w, some x, some y =>
      if y % 4 = 0 then
        some [UInt8.ofNat (w * 4 + x / 16), UInt8.ofNat (x % 16 * 16 + y / 4)]
      else none
  | _, _, _ => none

def decodeThree (w x y z : Char) : Option (List UInt8) :=
  match value w, value x, value y, value z with
  | some w, some x, some y, some z =>
      some [UInt8.ofNat (w * 4 + x / 16), UInt8.ofNat (x % 16 * 16 + y / 4),
        UInt8.ofNat (y % 4 * 64 + z)]
  | _, _, _, _ => none

/-- Bits that are left over must be zero, and the padding stands at the end. -/
def decode : List Char → Option (List UInt8)
  | [] => some []
  | w :: x :: y :: z :: chars =>
      if chars = [] ∧ z = '=' then if y = '=' then decodeOne w x else decodeTwo w x y
      else (decodeThree w x y z).bind fun bytes => (decode chars).map (bytes ++ ·)
  | _ => none

theorem value_symbol_fin : ∀ n : Fin 64, value (symbol n) = some n.val := by decide +kernel

theorem symbol_ne_pad_fin : ∀ n : Fin 64, symbol n ≠ '=' := by decide +kernel

theorem value_symbol {n : ℕ} (h : n < 64) : value (symbol n) = some n := value_symbol_fin ⟨n, h⟩

theorem symbol_ne_pad {n : ℕ} (h : n < 64) : symbol n ≠ '=' := symbol_ne_pad_fin ⟨n, h⟩

theorem ofNat_eq {n : ℕ} {a : UInt8} (h : n = a.toNat) : UInt8.ofNat n = a := by
  rw [h, UInt8.ofNat_toNat]

theorem decode_encode (bytes : List UInt8) : decode (encode bytes) = some bytes := by
  -- three bytes at a time; one or two that are left stand with their padding
  fun_induction encode bytes with
  | case1 => rfl
  | case2 a =>
      have ha := a.toNat_lt
      unfold decode decodeOne
      rw [if_pos ⟨rfl, rfl⟩, if_pos rfl, value_symbol (by omega), value_symbol (by omega)]
      dsimp only
      rw [if_pos (by omega), ofNat_eq (a := a) (by omega)]
  | case3 a b =>
      have ha := a.toNat_lt
      have hb := b.toNat_lt
      unfold decode decodeTwo
      rw [if_pos ⟨rfl, rfl⟩, if_neg (symbol_ne_pad (by omega)), value_symbol (by omega),
        value_symbol (by omega), value_symbol (by omega)]
      dsimp only
      rw [if_pos (by omega), ofNat_eq (a := a) (by omega), ofNat_eq (a := b) (by omega)]
  | case4 a b c bytes ih =>
      have ha := a.toNat_lt
      have hb := b.toNat_lt
      have hc := c.toNat_lt
      unfold decode decodeThree
      rw [if_neg fun h => symbol_ne_pad (by omega) h.2, value_symbol (by omega),
        value_symbol (by omega), value_symbol (by omega), value_symbol (by omega)]
      dsimp only
      rw [ofNat_eq (a := a) (by omega), ofNat_eq (a := b) (by omega), ofNat_eq (a := c) (by omega),
        Option.bind_some, ih]
      rfl

/-! ## §2  Data URLs -/

def marker : List Char := ";base64".toList

def dataUrl (mediaType : List Char) (bytes : List UInt8) : List Char :=
  "data:".toList ++ mediaType ++ marker ++ ',' :: encode bytes

/-- What comes behind `data:`: the first comma ends the media type. -/
def readBody (body : List Char) : Option (List Char × List UInt8) :=
  let header := body.takeWhile (· ≠ ',')
  if marker.isSuffixOf header then
    (decode (body.drop (header.length + 1))).map fun bytes =>
      (header.take (header.length - marker.length), bytes)
  else none

/-- The media type and the bytes of a data URL. -/
def readDataUrl (url : List Char) : Option (List Char × List UInt8) :=
  if "data:".toList.isPrefixOf url then readBody (url.drop 5) else none

theorem readDataUrl_dataUrl (mediaType : List Char) (bytes : List UInt8) :
    readDataUrl (dataUrl mediaType bytes) = readBody (mediaType ++ marker ++ ',' :: encode bytes) := by
  have hurl : dataUrl mediaType bytes =
      "data:".toList ++ (mediaType ++ marker ++ ',' :: encode bytes) := by
    unfold dataUrl
    rw [List.append_assoc, List.append_assoc, List.append_assoc]
  unfold readDataUrl
  rw [hurl, if_pos (List.isPrefixOf_iff_prefix.mpr (List.prefix_append _ _))]
  rfl

theorem readBody_append {mediaType : List Char} (h : ',' ∉ mediaType) (bytes : List UInt8) :
    readBody (mediaType ++ marker ++ ',' :: encode bytes) = some (mediaType, bytes) := by
  have hheader : (mediaType ++ marker ++ ',' :: encode bytes).takeWhile (· ≠ ',') =
      mediaType ++ marker := by
    rw [List.takeWhile_append_of_pos]
    · rw [List.takeWhile_cons_of_neg (by decide), List.append_nil]
    · intro c hc
      rcases List.mem_append.mp hc with hc | hc
      · exact decide_eq_true fun heq => h (heq ▸ hc)
      · have hmarker : marker.all (· ≠ ',') = true := by decide
        exact List.all_eq_true.mp hmarker c hc
  unfold readBody
  rw [hheader]
  dsimp only
  rw [if_pos (List.isSuffixOf_iff_suffix.mpr (List.suffix_append _ _))]
  have hdrop : (mediaType ++ marker ++ ',' :: encode bytes).drop
      ((mediaType ++ marker).length + 1) = encode bytes := by
    rw [List.drop_append]
    simp
  rw [hdrop, decode_encode, List.length_append, Nat.add_sub_cancel, List.take_left]
  rfl

/-- The media type that is read has no comma. -/
theorem comma_notMem_of_readBody {body mediaType : List Char} {bytes : List UInt8}
    (h : readBody body = some (mediaType, bytes)) : ',' ∉ mediaType := by
  unfold readBody at h
  dsimp only at h
  split at h
  · obtain ⟨_, -, heq⟩ := Option.map_eq_some_iff.mp h
    obtain ⟨rfl, -⟩ := Prod.mk.inj heq
    intro hmem
    have hne := List.mem_takeWhile_imp (List.mem_of_mem_take hmem)
    simp at hne
  · cases h

/-- A data URL is read as what it was made of, if and only if the media type has no comma. -/
theorem readDataUrl_eq_iff {mediaType : List Char} {bytes : List UInt8} :
    readDataUrl (dataUrl mediaType bytes) = some (mediaType, bytes) ↔ ',' ∉ mediaType := by
  rw [readDataUrl_dataUrl]
  exact ⟨comma_notMem_of_readBody, fun h => readBody_append h bytes⟩

end OpencodeA2a.Base64
