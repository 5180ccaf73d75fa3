import TransferEngine.Lib.Percent
import TransferEngine.Tracker.Model

/-!
# Queries

`url_encode` writes a percent-encoding (`TransferEngine.TrackerClient.urlEncode_faithful`): it is
made of unreserved characters and of escapes, and decoding gives the bytes back. Since no
delimiter occurs in it, a query determines the two byte strings that are encoded in it, whatever
its other parameters are.
-/

namespace TransferEngine

namespace TrackerClient

open Percent

variable {x y : List UInt8} {b : UInt8}

/-- The digits that are written are read. -/
theorem hexValue_hexChars {k : ℕ} (h : k < 16) : hexValue (hexChars.getD k 0) = some k := by
  have hall : ∀ k : Fin 16, hexValue (hexChars.getD k 0) = some k.val := by decide
  exact hall ⟨k, h⟩

/-- **What is written for a byte**: the byte, if it is unreserved, and an escape otherwise. -/
theorem encodeByte_cases (b : UInt8) : (Unreserved b ∧ encodeByte b = [b]) ∨
    (¬Unreserved b ∧ encodeByte b =
      [percent, hexChars.getD (b.toNat / 16) 0, hexChars.getD (b.toNat % 16) 0]) := by
  have hiff : ((0x30 ≤ b ∧ b ≤ 0x39) ∨ (0x61 ≤ b ∧ b ≤ 0x7a) ∨ (0x41 ≤ b ∧ b ≤ 0x5a) ∨
      b = 0x2d ∨ b = 0x5f ∨ b = 0x2e ∨ b = 0x7e) ↔ Unreserved b := by
    simp only [Unreserved, List.mem_cons, List.not_mem_nil, or_false]
    tauto
  rw [encodeByte]
  split
  case isTrue h => exact Or.inl ⟨hiff.mp h, rfl⟩
  case isFalse h => exact Or.inr ⟨mt hiff.mpr h, rfl⟩

theorem percent_not_unreserved : ¬Unreserved percent := by decide

/-- **What is written for a byte spells it.** -/
theorem spells_encodeByte (b : UInt8) : Spells (encodeByte b) b := by
  rcases encodeByte_cases b with ⟨hun, he⟩ | ⟨-, he⟩
  · rw [he]
    refine .literal ?_
    rintro rfl
    exact percent_not_unreserved hun
  · rw [he]
    have hlt := b.toNat_lt
    exact .escape (hexValue_hexChars (by omega)) (hexValue_hexChars (Nat.mod_lt _ (by omega)))
      (Nat.div_add_mod b.toNat 16).symm

theorem decode_urlEncode (x : List UInt8) : decode (urlEncode x) = some x :=
  decode_flatMap spells_encodeByte x

theorem urlEncode_injective : Function.Injective urlEncode := flatMap_injective spells_encodeByte

/-- The digits are unreserved. -/
theorem unreserved_hexChars {k : ℕ} (h : k < 16) : Unreserved (hexChars.getD k 0) := by
  have hall : ∀ k : Fin 16, Unreserved (hexChars.getD k 0) := by decide
  exact hall ⟨k, h⟩

/-- Every character of an encoded string is unreserved, or a percent sign. -/
theorem of_mem_urlEncode (h : b ∈ urlEncode x) : b = percent ∨ Unreserved b := by
  obtain ⟨a, -, ha⟩ := List.mem_flatMap.mp h
  have hlt := a.toNat_lt
  rcases encodeByte_cases a with ⟨hun, he⟩ | ⟨-, he⟩
  · rw [he, List.mem_singleton] at ha
    exact Or.inr (ha ▸ hun)
  · rw [he] at ha
    rcases List.mem_cons.mp ha with rfl | ha
    · exact Or.inl rfl
    · rcases List.mem_cons.mp ha with rfl | ha
      · exact Or.inr (unreserved_hexChars (by omega))
      · rw [List.mem_singleton.mp ha]
        exact Or.inr (unreserved_hexChars (Nat.mod_lt _ (by omega)))

/-- **No delimiter occurs in an encoded string.** -/
theorem not_mem_urlEncode (h : b ∈ reserved) : b ∉ urlEncode x := by
  have hall : ∀ b ∈ reserved, ¬(b = percent ∨ Unreserved b) := by decide +kernel
  exact fun hmem => hall b h (of_mem_urlEncode hmem)

/-- **A query determines what is encoded in it.** -/
theorem queryUrl_inj {c c' : TrackerClient} {args args' : AnnounceArgs} {baseUrl : List UInt8}
    (h : c.queryUrl args baseUrl = c'.queryUrl args' baseUrl) :
    c.torrent.infoHash = c'.torrent.infoHash ∧ c.peerId = c'.peerId := by
  have hamp : ∀ x, (0x26 : UInt8) ∉ urlEncode x := fun x => not_mem_urlEncode (by decide)
  have hpeer : ascii "&peer_id=" = 0x26 :: ascii "peer_id=" := by decide
  have hport : ascii "&port=" = 0x26 :: ascii "port=" := by decide
  simp only [queryUrl, List.append_assoc, List.append_cancel_left_eq, hpeer, hport,
    List.cons_append] at h
  -- the first ampersand ends the digest, the next one the identifier
  obtain ⟨hhash, h⟩ := List.append_cons_inj_left (hamp _) (hamp _) h
  rw [List.append_cancel_left_eq] at h
  obtain ⟨hid, -⟩ := List.append_cons_inj_left (hamp _) (hamp _) h
  exact ⟨Vector.toList_inj.mp (urlEncode_injective hhash),
    Vector.toList_inj.mp (urlEncode_injective hid)⟩

/-- **`url_encode` is faithful**: what it writes is a sequence of unreserved characters and of
escapes, decoding it gives the bytes back, and no delimiter, no space and no control character
occurs in it. So two queries to one tracker that differ in the digest or in the identifier are
different. -/
theorem urlEncode_faithful (x : List UInt8) :
    (∃ tokens : List (List UInt8), urlEncode x = tokens.flatten ∧ ∀ t ∈ tokens,
      (∃ b, Unreserved b ∧ t = [b]) ∨
        ∃ hi lo, (hexValue hi).isSome ∧ (hexValue lo).isSome ∧ t = [percent, hi, lo]) ∧
      decode (urlEncode x) = some x ∧
      (∀ y, urlEncode y = urlEncode x → y = x) ∧
      (∀ b ∈ urlEncode x, b ∉ reserved ∧ 0x20 < b ∧ b < 0x7f) ∧
      ∀ (c c' : TrackerClient) (args args' : AnnounceArgs) (baseUrl : List UInt8),
        c.queryUrl args baseUrl = c'.queryUrl args' baseUrl →
          c.torrent.infoHash = c'.torrent.infoHash ∧ c.peerId = c'.peerId := by
  refine ⟨⟨x.map encodeByte, rfl, fun t ht => ?_⟩, decode_urlEncode x,
    fun y h => urlEncode_injective h, fun b hb => ⟨fun hr => not_mem_urlEncode hr hb, ?_⟩,
    fun _ _ _ _ _ => queryUrl_inj⟩
  · obtain ⟨a, -, rfl⟩ := List.mem_map.mp ht
    have hlt := a.toNat_lt
    rcases encodeByte_cases a with ⟨hun, he⟩ | ⟨-, he⟩
    · exact Or.inl ⟨a, hun, he⟩
    · refine Or.inr ⟨_, _, ?_, ?_, he⟩
      · rw [hexValue_hexChars (by omega)]
        rfl
      · rw [hexValue_hexChars (Nat.mod_lt _ (by omega))]
        rfl
  · rcases of_mem_urlEncode hb with rfl | hun
    · decide
    · exact hun.visible

example : urlEncode [0x00, 0x1f, 0x7f, 0x41, 0x25] = ascii "%00%1f%7fA%25" := by decide

end TrackerClient

end TransferEngine
