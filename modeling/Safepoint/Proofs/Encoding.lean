import Safepoint.Proofs.Encoding.SingleByte
import Safepoint.Proofs.Encoding.Utf16
import Safepoint.Proofs.Memory.Store

/-!
# Texts and the octets they are kept in

Where an encoding is the one that text is written in, a text is read back from its octets with
references in place of the scalar values that the encoding does not represent. Of the supported
encodings this holds of all but the two 16-bit ones: there UTF-8 is written, and no text is read
back as it was, except the empty one.

## Key results

- `Encoding.Represents`: some octets are read as the scalar value
- `Encoding.decode_encode_iff`: when a text comes back from its octets
- `Encoding.text_read_back_iff`: the same of error messages and of strings of an interpreter
-/

namespace Safepoint

variable {κ τ ρ : Type}

namespace Encoding

/-! ## What an encoding represents -/

/-- Some octets are read as the scalar value alone. -/
def Represents (e : Encoding) (c : Char) : Prop :=
  ∃ bytes, e.decode bytes = String.singleton c

/-- The upper halves are full. -/
theorem length_of_singleByte {e : Encoding} {upper : List Nat} (h : e.layout = .singleByte upper) :
    upper.length = 0x80 := by
  cases e with
  | utf8 | utf16le | utf16be => exact nomatch h
  | windows1252 | windows1251 | iso88592 =>
    obtain rfl := Layout.singleByte.inj h
    rfl
  | userDefined =>
    obtain rfl := Layout.singleByte.inj h
    simp only [SingleByte.userDefined, List.length_map, List.length_range]

/-- Whether a layout has octets for a scalar value. -/
def Layout.has : Layout → Char → Bool
  | .utf8, _ | .utf16 _, _ => true
  | .singleByte upper, c => (SingleByte.octet? upper c).isSome

/-- A Unicode encoding represents every scalar value, and any other one those that have an octet. -/
theorem has_iff_represents (e : Encoding) (c : Char) : e.layout.has c ↔ e.Represents c := by
  unfold Represents decode
  cases h : e.layout with
  -- every character has octets in the encodings of all characters, and in the others those of the
  -- table
  | utf8 =>
    refine iff_of_true rfl ⟨Utf8.encode [c], ?_⟩
    show String.ofList (Utf8.decode (Utf8.encode [c])) = _
    rw [Utf8.decode_encode, String.singleton_eq_ofList]
  | utf16 order =>
    obtain ⟨bytes, read⟩ := Utf16.exists_decode order c
    refine iff_of_true rfl ⟨bytes, ?_⟩
    show String.ofList (Utf16.decode order bytes) = _
    rw [read, String.singleton_eq_ofList]
  | singleByte upper =>
    simp only [String.singleton_eq_ofList, String.ofList_inj]
    exact SingleByte.isSome_octet?_iff (length_of_singleByte h)

instance (e : Encoding) : DecidablePred e.Represents := fun c =>
  decidable_of_iff (e.layout.has c = true) (e.has_iff_represents c)

/-- A text with decimal references for the scalar values that an encoding does not represent. -/
def withReferences (e : Encoding) (text : String) : String :=
  .ofList (text.toList.flatMap fun c =>
    if e.Represents c then [c] else SingleByte.reference c.toNat)

/-- In an encoding that represents every scalar value no text needs references. -/
theorem withReferences_of_has {e : Encoding} (h : ∀ c, e.layout.has c = true) (text : String) :
    e.withReferences text = text := by
  simp only [withReferences, ← has_iff_represents, h, if_true, List.flatMap_singleton',
    String.ofList_toList]

/-! ## Texts -/

/-- In an encoding of single octets a text comes back with its references. -/
theorem decode_encode_of_singleByte {e : Encoding} {upper : List Nat} (own : e.output = e)
    (h : e.layout = .singleByte upper) (text : String) :
    e.decode (e.encode text) = e.withReferences text := by
  unfold encode decode withReferences
  rw [own, h]
  refine congrArg String.ofList ?_
  show SingleByte.decode upper (SingleByte.encode upper text.toList) = _
  -- each character is shown as itself or as a reference, by whether the encoding has it
  rw [SingleByte.decode_encode (Nat.le_of_eq (length_of_singleByte h))]
  refine congrArg (text.toList.flatMap ·) (funext fun c => ?_)
  simp only [SingleByte.shown, ← e.has_iff_represents, h, Layout.has]

/-- Where UTF-8 is written for a 16-bit encoding, only the empty text comes back. -/
theorem decode_encode_of_utf16 {e : Encoding} {order : Utf16.Endian} (other : e.output = utf8)
    (h : e.layout = .utf16 order) (text : String) :
    e.decode (e.encode text) = text ↔ text = "" := by
  unfold encode decode
  rw [other, h]
  show String.ofList (Utf16.decode order (Utf8.encode text.toList)) = text ↔ _
  constructor
  -- the octets of another encoding, read as pairs, give the text only where there is none
  · intro back
    have back := congrArg String.toList back
    rw [String.toList_ofList] at back
    exact String.toList_eq_nil_iff.1 (Utf16.eq_nil_of_decode_encode order back)
  · rintro rfl
    rfl

/-- A text comes back from its octets in the encodings that are written, and in the others only if
it is empty. -/
theorem decode_encode_iff (e : Encoding) (text : String) :
    e.decode (e.encode text) = e.withReferences text ↔ e.output = e ∨ text = "" := by
  cases e with
  | utf8 =>
    -- of these three, only the first writes its own octets
    rw [withReferences_of_has fun _ => rfl]
    refine iff_of_true ?_ (.inl rfl)
    show String.ofList (Utf8.decode (Utf8.encode text.toList)) = text
    rw [Utf8.decode_encode, String.ofList_toList]
  | utf16le =>
    rw [withReferences_of_has fun _ => rfl, decode_encode_of_utf16 rfl rfl,
      or_iff_right (by decide)]
  | utf16be =>
    rw [withReferences_of_has fun _ => rfl, decode_encode_of_utf16 rfl rfl,
      or_iff_right (by decide)]
  | windows1252 | windows1251 | iso88592 | userDefined =>
    exact iff_of_true (decode_encode_of_singleByte rfl rfl text) (.inl rfl)

/-! ## Messages and strings -/

/-- Host code that asks for a new string of a text gets one of the text's octets, or is told that
there is no memory if the heap refuses the block. -/
theorem newText_step (code : Meaning κ τ ρ) (m : Machine κ τ ρ) (held : Held) (text : String)
    (next : Reply κ → Program κ τ ρ) :
    ((m.goto (.run held (.ask (.newText text) next))).step code).interp = m.interp ∧
      ∃ r : Reply κ,
        ((m.goto (.run held (.ask (.newText text) next))).step code).control =
          .run (held.addAll r.holds) (next r) ∧
        ((∃ v, r = .value v ∧ v.bytes? = some (m.interp.encoding.encode text)) ∨
          r = .failed .memory ∧
            (m.ground.store.newString m.interp.heap (m.interp.encoding.encode text)).2 = none) := by
  -- the request asks the store for a string of the encoded text, and replies with what comes of it
  simp only [Machine.step, Machine.goto, Machine.runProgram, Machine.serve, Machine.serve.string,
    Machine.newValue, Machine.askStore, Store.newValue]
  cases made : m.ground.store.newString m.interp.heap (m.interp.encoding.encode text) with
  | mk store answer =>
    cases answer with
    | some str =>
      have hbytes := Store.bytes_of_newString (congrArg Prod.snd made)
      exact ⟨rfl, _, rfl, .inl ⟨_, rfl, congrArg some hbytes⟩⟩
    | none => exact ⟨rfl, _, rfl, .inr ⟨rfl, rfl⟩⟩

/-- Text survives its encoding in a message, in the text of a cancellation as the embedder is shown
it, and in a string of an interpreter, exactly where the encoding is the one that is written, or
there is no text. -/
theorem text_read_back_iff (text : String) :
    (∀ e : Encoding, (Message.ofText text e).text = e.withReferences text ↔
      e.output = e ∨ text = "") ∧
    (∀ (e : Encoding) (b : Mailbox κ),
      ((HostPhase.storeMessage text e).step b).1.cancelMessage.map
        (fun m => (Error.cancelled m).text)
        = some ("Cancelled: " ++ e.withReferences text) ↔ e.output = e ∨ text = "") ∧
    (∀ (code : Meaning κ τ ρ) (m : Machine κ τ ρ) (held : Held) (next : Reply κ → Program κ τ ρ),
      let e := m.interp.encoding
      let after := (m.goto (.run held (.ask (.newText text) next))).step code
      ∃ r : Reply κ, after.control = .run (held.addAll r.holds) (next r) ∧
        ((∃ v, r = .value v ∧
            (v.bytes?.map after.interp.encoding.decode = some (e.withReferences text) ↔
              e.output = e ∨ text = "")) ∨
          r = .failed .memory ∧
            (m.ground.store.newString m.interp.heap (e.encode text)).2 = none)) ∧
    utf8.withReferences text = text ∧ utf16le.withReferences text = text ∧
      utf16be.withReferences text = text := by
  refine ⟨fun e => e.decode_encode_iff text, fun e b => ?_, fun code m held next => ?_,
    withReferences_of_has (fun _ => rfl) text, withReferences_of_has (fun _ => rfl) text,
    withReferences_of_has (fun _ => rfl) text⟩
  · rw [← e.decode_encode_iff text]
    show some ("Cancelled: " ++ e.decode (e.encode text)) = _ ↔ _
    rw [Option.some_inj, String.append_right_inj]
  · obtain ⟨same, r, control, ⟨v, rfl, octets⟩ | refused⟩ := newText_step code m held text next
    · refine ⟨_, control, .inl ⟨v, rfl, ?_⟩⟩
      -- the reply has the octets of the text, so it is read back as they are
      rw [same, octets, Option.map_some, Option.some_inj]
      exact decode_encode_iff _ text
    · exact ⟨_, control, .inr refused⟩

example : windows1252.withReferences "5 Ω" = "5 &#937;" := by decide

/-- A message of five letters in UTF-16LE is read as two others and a replacement. -/
theorem utf16_message_garbled :
    (Message.ofText "abort" .utf16le).text = "扡牯\uFFFD" ∧
      utf16le.withReferences "abort" = "abort" := by
  decide

end Encoding

end Safepoint
