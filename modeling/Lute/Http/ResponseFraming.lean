import Lute.Http.ParserSteps
import Lute.Lib.Delimited

/-! Responses one after another on a connection that stays open, told apart by their bytes. -/
namespace Lute.Http

open Delimited

/-- The bytes of a number in decimal. -/
def decimalText (n : Nat) : Bytes := ascii (toString n)

theorem decimalText_eq (n : Nat) :
    decimalText n = (Nat.toDigits 10 n).map fun c => c.toNat.toUInt8 := by
  rw [decimalText, ascii, Nat.toString_eq_repr, Nat.toList_repr]

theorem toNat_of_isDigit {c : Char} (h : c.isDigit = true) : 48 ≤ c.toNat ∧ c.toNat ≤ 57 := by
  simp only [Char.isDigit, Bool.and_eq_true, decide_eq_true_eq, ge_iff_le,
    UInt32.le_iff_toNat_le] at h
  exact h

theorem decimalText_digit {n : Nat} {b : UInt8} (h : b ∈ decimalText n) : 48 ≤ b ∧ b ≤ 57 := by
  rw [decimalText_eq] at h
  obtain ⟨c, hc, rfl⟩ := List.mem_map.mp h
  have hd := toNat_of_isDigit (Nat.isDigit_of_mem_toDigits (by decide) (by decide) hc)
  simp only [UInt8.le_iff_toNat_le, Nat.toUInt8]
  simp
  omega

theorem decimalText_inj {m n : Nat} (h : decimalText m = decimalText n) : m = n := by
  have hback : ∀ k, (decimalText k).map (fun b => Char.ofNat b.toNat) = Nat.toDigits 10 k := by
    intro k
    rw [decimalText_eq, List.map_map]
    have hid : ∀ c ∈ Nat.toDigits 10 k,
        ((fun b : UInt8 => Char.ofNat b.toNat) ∘ fun c : Char => c.toNat.toUInt8) c = id c := by
      intro c hc
      have hd := toNat_of_isDigit (Nat.isDigit_of_mem_toDigits (by decide) (by decide) hc)
      have hmod : c.toNat % 256 = c.toNat := Nat.mod_eq_of_lt (by omega)
      simp [Nat.toUInt8, hmod, Char.ofNat_toNat]
    exact (List.map_congr_left hid).trans (List.map_id _)
  have hd : Nat.toDigits 10 m = Nat.toDigits 10 n := by rw [← hback, h, hback]
  rw [← Nat.ofDigitChars_ten_toDigits (n := m), hd, Nat.ofDigitChars_ten_toDigits]

theorem length_decimalText_le {n k : Nat} (hk : 0 < k) :
    (decimalText n).length ≤ k ↔ n < 10 ^ k := by
  rw [decimalText_eq, List.length_map]
  exact Nat.length_toDigits_le_iff (by decide) hk

/-- What the encoding of a keep-alive response needs: no line break inside a line, a key that ends
at its colon, and a length that the number buffer holds. -/
structure Framable (resp : HttpResponse) : Prop where
  keepAlive : resp.closeConnection = false
  message : 13 ∉ resp.statusMessage
  headers : ∀ h ∈ resp.headers, 13 ∉ h.1 ∧ 58 ∉ h.1 ∧ 13 ∉ h.2
  body : resp.body.length < 10 ^ 13

namespace HttpResponse

variable {r r' : HttpResponse}

def statusLine (r : HttpResponse) : Bytes :=
  ascii "HTTP/1.1 " ++ (decimalText r.statusCode.toNat ++ [32] ++ r.statusMessage)

def fieldLine (h : Bytes × Bytes) : Bytes := h.1 ++ [58] ++ ([32] ++ h.2)

/-- The lines before the blank one. -/
def lines (r : HttpResponse) : List Bytes :=
  r.statusLine :: (ascii "Content-Length: " ++ decimalText r.body.length) ::
    ascii "Connection: Keep-Alive" :: r.headers.map fieldLine

theorem snprintf32_of_le {text : Bytes} (h : text.length ≤ 31) : snprintf32 text = text :=
  List.take_of_length_le h

/-- Both formatted texts fit the number buffer. -/
theorem appendToBuffer_eq (h : Framable r) :
    r.appendToBuffer = r.lines.flatMap (· ++ kCRLF) ++ kCRLF ++ r.body := by
  have hstatus :
      snprintf32 (ascii "HTTP/1.1 " ++ ascii (toString r.statusCode.toNat) ++ ascii " ") =
        ascii "HTTP/1.1 " ++ ascii (toString r.statusCode.toNat) ++ ascii " " := by
    apply snprintf32_of_le
    cases r.statusCode <;> decide
  have hlength : snprintf32 (ascii "Content-Length: " ++ ascii (toString r.body.length) ++ kCRLF) =
      ascii "Content-Length: " ++ ascii (toString r.body.length) ++ kCRLF := by
    apply snprintf32_of_le
    have hdigits := (length_decimalText_le (n := r.body.length) (by decide)).mpr h.body
    have htext : (ascii "Content-Length: ").length = 16 := by decide
    have hcrlf : kCRLF.length = 2 := rfl
    rw [decimalText] at hdigits
    simp only [List.length_append, htext, hcrlf]
    omega
  have hspace : ascii " " = [32] := by decide
  have hcolon : ascii ": " = [58] ++ [32] := by decide
  rw [appendToBuffer, hstatus, hlength, h.keepAlive, if_neg Bool.false_ne_true]
  simp only [hspace, hcolon, lines, statusLine, fieldLine, decimalText, List.flatMap_cons,
    List.flatMap_map, List.append_assoc]

theorem notMem_decimalText {b : UInt8} (h : b < 48 ∨ 57 < b) (n : Nat) : b ∉ decimalText n := by
  intro hmem
  have hd := decimalText_digit hmem
  simp only [UInt8.lt_iff_toNat_lt, UInt8.le_iff_toNat_le] at h hd
  omega

theorem lines_ok (h : Framable r) : ∀ l ∈ r.lines, l ≠ [] ∧ findCRLF l = none := by
  intro l hl
  have hkeep : (13 : UInt8) ∉ ascii "Connection: Keep-Alive" := by decide
  have hhttp : (13 : UInt8) ∉ ascii "HTTP/1.1 " := by decide
  have hlen : (13 : UInt8) ∉ ascii "Content-Length: " := by decide
  have hdec : ∀ n, (13 : UInt8) ∉ decimalText n := notMem_decimalText (by decide)
  simp only [lines, List.mem_cons, List.mem_map] at hl
  rcases hl with rfl | rfl | rfl | ⟨p, hp, rfl⟩
  · refine ⟨by simp [statusLine, decimalText_eq], findCRLF_of_notMem ?_⟩
    simp [statusLine, hhttp, hdec, h.message]
  · refine ⟨by simp [decimalText_eq], findCRLF_of_notMem ?_⟩
    simp [hlen, hdec]
  · exact ⟨by decide, findCRLF_of_notMem hkeep⟩
  · obtain ⟨hkey, -, hvalue⟩ := h.headers p hp
    refine ⟨by simp [fieldLine], findCRLF_of_notMem ?_⟩
    simp [fieldLine, hkey, hvalue]

theorem toNat_inj {c c' : HttpStatusCode} (h : c.toNat = c'.toNat) : c = c' := by
  cases c <;> cases c' <;> simp_all [HttpStatusCode.toNat]

theorem statusLine_inj (h : r.statusLine = r'.statusLine) :
    r.statusCode = r'.statusCode ∧ r.statusMessage = r'.statusMessage := by
  have hspace : ∀ n, (32 : UInt8) ∉ decimalText n := notMem_decimalText (by decide)
  obtain ⟨hcode, hmessage⟩ := selfDelimiting_until _ _ (hspace _) (hspace _) _ _
    (List.append_cancel_left h)
  exact ⟨toNat_inj (decimalText_inj hcode), hmessage⟩

theorem fieldLine_inj {h h' : Bytes × Bytes} (hk : 58 ∉ h.1) (hk' : 58 ∉ h'.1)
    (he : fieldLine h = fieldLine h') : h = h' := by
  obtain ⟨hkey, hvalue⟩ := selfDelimiting_until _ _ hk hk' _ _ he
  exact Prod.ext hkey (List.append_cancel_left hvalue)

theorem headers_inj {hs hs' : List (Bytes × Bytes)} (hk : ∀ h ∈ hs, 58 ∉ h.1)
    (hk' : ∀ h ∈ hs', 58 ∉ h.1) (he : hs.map fieldLine = hs'.map fieldLine) : hs = hs' := by
  induction hs generalizing hs' with
  | nil => simpa using he.symm
  | cons h hs ih =>
    cases hs' with
    | nil => simp at he
    | cons h' hs' =>
      obtain ⟨hfirst, hrest⟩ := List.cons.inj he
      rw [fieldLine_inj (hk h (by simp)) (hk' h' (by simp)) hfirst,
        ih (fun k hm => hk k (by simp [hm])) (fun k hm => hk' k (by simp [hm])) hrest]

theorem selfDelimiting_crlfBlock :
    SelfDelimiting (fun ls : List Bytes => ∀ l ∈ ls, l ≠ [] ∧ findCRLF l = none)
      (fun ls => ls.flatMap (· ++ kCRLF) ++ kCRLF) :=
  selfDelimiting_block (by decide)

/-- The blank line ends the header block, and the length in it ends the body. -/
theorem selfDelimiting_appendToBuffer : SelfDelimiting Framable appendToBuffer := by
  intro r r' hr hr' x y he
  rw [appendToBuffer_eq hr, appendToBuffer_eq hr', List.append_assoc _ r.body,
    List.append_assoc _ r'.body] at he
  obtain ⟨hlines, hbody⟩ := selfDelimiting_crlfBlock r.lines r'.lines (lines_ok hr) (lines_ok hr')
    (r.body ++ x) (r'.body ++ y) he
  simp only [lines, List.cons.injEq, true_and] at hlines
  obtain ⟨hstatus, hlength, hheaders⟩ := hlines
  obtain ⟨hcode, hmessage⟩ := statusLine_inj hstatus
  have hlen := decimalText_inj (List.append_cancel_left hlength)
  obtain ⟨hsame, rfl⟩ := List.append_inj hbody hlen
  have hhead := headers_inj (fun h hm => (hr.headers h hm).2.1) (fun h hm => (hr'.headers h hm).2.1)
    hheaders
  refine ⟨?_, rfl⟩
  obtain ⟨hs, code, message, close, body⟩ := r
  obtain ⟨hs', code', message', close', body'⟩ := r'
  have hclose : close = close' := hr.keepAlive.trans hr'.keepAlive.symm
  simp only at hcode hmessage hhead hsame
  rw [hcode, hmessage, hhead, hsame, hclose]

theorem appendToBuffer_ne_nil (h : Framable r) : r.appendToBuffer ≠ [] := by
  simp [appendToBuffer_eq h, kCRLF]

/-- Responses on a connection that is kept alive: the bytes of one determine it, none is the
beginning of another, and the bytes of several in a row determine them all. -/
theorem keepAlive_responses_delimited :
    (∀ r r', Framable r → Framable r' → r.appendToBuffer = r'.appendToBuffer → r = r') ∧
    (∀ r r', Framable r → Framable r' → r.appendToBuffer <+: r'.appendToBuffer →
      r.appendToBuffer = r'.appendToBuffer) ∧
    ∀ rs rs' : List HttpResponse, (∀ r ∈ rs, Framable r) → (∀ r ∈ rs', Framable r) →
      rs.flatMap appendToBuffer = rs'.flatMap appendToBuffer → rs = rs' := by
  have hd := selfDelimiting_appendToBuffer
  refine ⟨fun r r' hr hr' he => hd.inj hr hr' he, fun r r' hr hr' hp => ?_,
    fun rs rs' hrs hrs' he => hd.flatMap_inj (fun r => appendToBuffer_ne_nil) hrs hrs' he⟩
  rw [hd.prefix_eq hr hr' hp]

def notFound : HttpResponse := ⟨[], .k404NotFound, ascii "Not Found", false, []⟩

/-- Its body reads like another response. -/
def wrapped : HttpResponse :=
  ⟨[(ascii "Content-Type", ascii "a: b")], .k200Ok, ascii "OK", false, notFound.appendToBuffer⟩

/-- The body does not hide where it ends. -/
theorem keepAlive_responses_delimited_nested :
    Framable notFound ∧ Framable wrapped ∧
      [wrapped, notFound].flatMap appendToBuffer ≠ [notFound, wrapped].flatMap appendToBuffer := by
  have hn : Framable notFound := ⟨rfl, by decide, by simp [notFound], by decide⟩
  have hw : Framable wrapped := ⟨rfl, by decide, by decide, by decide⟩
  refine ⟨hn, hw, fun he => ?_⟩
  have hlist := keepAlive_responses_delimited.2.2 [wrapped, notFound] [notFound, wrapped]
    (by simp [hn, hw]) (by simp [hn, hw]) he
  exact absurd hlist (by decide)

end HttpResponse

end Lute.Http
