import Mqtt.Client.Runner
import Mqtt.Proofs.Fields
import Mqtt.Proofs.StoreDepth

/-!
# What is kept between runs is read back from its text: `InflightState`, `Message`, `Session`

Messages, open handshakes and what is left of a session nest a few levels whatever they hold, so none of them is too
deep for the reader, and they are read back from their text as they were, whether it is written without blanks or on
indented lines (`Json.texts`). That a payload is written in one of two forms can be told from the first character of
its text (`texts_readBack`).
-/

namespace Mqtt

/-! ### Texts of a value -/

namespace Json

/-- A value is written without blanks or on indented lines. -/
def texts (j : Json) : List String := [j.render, j.renderIndented]

variable {j : Json} {text : String}

theorem mem_texts : text ∈ j.texts ↔ text = j.render ∨ text = j.renderIndented := by
  rw [texts, List.mem_cons, List.mem_singleton]

theorem parse?_of_mem_texts (h : text ∈ j.texts) : parse? text = some j := by
  rcases mem_texts.1 h with rfl | rfl
  · exact j.parse?_render
  · exact j.parse?_renderIndented

/-- A text begins with its first token. -/
theorem head?_of_mem_texts {t : Token} {ts : List Token} (htokens : j.tokens = t :: ts) (h : text ∈ j.texts) :
    text.toList.head? = t.chars.head? := by
  obtain ⟨c, cs, hchars, -⟩ := t.exists_chars
  rcases mem_texts.1 h with rfl | rfl
  · rw [render, Token.render, String.toList_ofList, htokens, List.flatMap_cons, hchars]
    rfl
  · rw [renderIndented, Token.renderIndented_eq, String.toList_ofList, htokens, Token.indented, hchars]
    rfl

end Json

/-! ### The two forms of a payload -/

namespace Payload

open Json

/-- The first character tells the two forms apart. -/
theorem head?_of_mem_texts {payload : ByteArray} {text : String} (h : text ∈ (toJson payload).texts) :
    text.toList.head? = some '"' ↔ payload.IsValidUTF8 := by
  rw [toJson_eq] at h
  split at h
  · next hvalid =>
    rw [Json.head?_of_mem_texts rfl h]
    exact iff_of_true rfl hvalid
  · next hvalid =>
    rw [Json.head?_of_mem_texts (tokens_arr _) h]
    exact iff_of_false (by decide) hvalid

theorem read_of_mem_texts {payload : ByteArray} {text : String} (h : text ∈ (toJson payload).texts) :
    (parse? text).bind (ofJson? maxNesting) = some payload := by
  rw [parse?_of_mem_texts h, Option.bind_some]
  exact ofJson?_toJson (fits_iff.2 ⟨legible_toJson payload, Nat.le_trans (nesting_toJson_le payload) (by decide)⟩)

end Payload

/-! ### Records -/

theorem Message.read_of_mem_texts {m : Message} {text : String} (h : text ∈ m.toJson.texts) :
    (Json.parse? text).bind (ofJson? Json.maxNesting) = some m := by
  rw [Json.parse?_of_mem_texts h, Option.bind_some]
  exact ofJson?_toJson (Json.fits_iff.2 ⟨m.legible_toJson, Nat.le_trans m.nesting_toJson_le (by decide)⟩)

theorem Inflight.parse?_of_mem_texts {s : Inflight} {text : String} (h : text ∈ s.toJson.texts) :
    parse? text = some s := by
  rw [parse?, Json.parse?_of_mem_texts h, Option.bind_some]
  exact ofJson?_toJson (Json.fits_iff.2 ⟨s.legible_toJson, Nat.le_trans s.nesting_toJson_le (by decide)⟩)

theorem Inflight.ofFile?_of_mem_texts {s : Inflight} {text : String} (h : text ∈ s.toJson.texts) :
    ofFile? (some text.toUTF8) = some s := by
  rw [ofFile?, Reader.fromUTF8?_toUTF8, Option.map_some, parse?_of_mem_texts h, Option.getD_some]

theorem Session.read_of_mem_texts {s : Session} {text : String} (h : text ∈ s.toJson.texts) :
    (Json.parse? text).bind (ofJson? Json.maxNesting) = some s.stored := by
  rw [Json.parse?_of_mem_texts h, Option.bind_some]
  exact ofJson?_toJson (Json.fits_iff.2 ⟨s.legible_toJson, Nat.le_trans s.nesting_toJson_le (by decide)⟩)

/-- **Handshakes and messages survive their text.** Whatever they hold, open handshakes, a message, and the waiting
messages and open handshakes of a session are read back from what is written of them, without blanks or on indented
lines; so is what a client keeps for its next run. A payload is written as a quoted text if and only if its bytes are
UTF-8, and as the list of its bytes otherwise. It is read from a text whose bytes it is, or from the list of its
bytes, and from nothing else. -/
theorem texts_readBack :
    (∀ (s : Inflight), ∀ text ∈ s.toJson.texts,
      Inflight.parse? text = some s ∧ Inflight.ofFile? (some text.toUTF8) = some s) ∧
    (∀ r : Client.Runner, Inflight.ofFile? (some r.stored.toUTF8) = some r.protocol.inflight) ∧
    (∀ (m : Message), ∀ text ∈ m.toJson.texts,
      (Json.parse? text).bind (Message.ofJson? Json.maxNesting) = some m) ∧
    (∀ (s : Session), ∀ text ∈ s.toJson.texts,
      ∃ s', (Json.parse? text).bind (Session.ofJson? Json.maxNesting) = some s' ∧
        s'.queue = s.queue ∧ s'.inflight = s.inflight) ∧
    (∀ (payload : ByteArray), ∀ text ∈ (Payload.toJson payload).texts,
      (text.toList.head? = some '"' ↔ payload.IsValidUTF8) ∧
        Json.parse? text = some
          (if h : payload.IsValidUTF8 then .text (String.fromUTF8 payload h) else Payload.bytesToJson payload) ∧
        (Json.parse? text).bind (Payload.ofJson? Json.maxNesting) = some payload) ∧
    ∀ (depth : Nat) (j : Json) (payload : ByteArray), Payload.ofJson? depth j = some payload ↔
      (∃ s : String, j = .text s ∧ s.toUTF8 = payload) ∨ 0 < depth ∧ j = Payload.bytesToJson payload := by
  refine ⟨fun s text h => ⟨Inflight.parse?_of_mem_texts h, Inflight.ofFile?_of_mem_texts h⟩, fun r => ?_,
    fun m text h => Message.read_of_mem_texts h, fun s text h => ⟨s.stored, Session.read_of_mem_texts h, rfl, rfl⟩,
    fun payload text h => ⟨Payload.head?_of_mem_texts h, ?_, Payload.read_of_mem_texts h⟩,
    fun depth j payload => Payload.ofJson?_eq_some_iff⟩
  · exact Inflight.ofFile?_of_mem_texts (Json.mem_texts.2 (.inr rfl))
  · rw [Json.parse?_of_mem_texts h, Payload.toJson_eq]

/-- A message whose one byte begins no character is kept as a list, one whose byte is a letter as a quoted text. -/
theorem texts_readBack_byte :
    let s := (Inflight.empty.track 7 ⟨"a", ⟨#[0xFF]⟩, .atLeastOnce, false⟩).track 8 ⟨"a", ⟨#[0x62]⟩, .exactlyOnce, true⟩
    (Payload.toJson ⟨#[0xFF]⟩).render = "[255]" ∧ ¬ (ByteArray.mk #[0xFF]).IsValidUTF8 ∧
      (Payload.toJson ⟨#[0x62]⟩).render = "\"b\"" ∧ (ByteArray.mk #[0x62]).IsValidUTF8 ∧
      Inflight.parse? s.toJson.render = some s ∧
      Inflight.ofFile? (some s.toJson.renderIndented.toUTF8) = some s := by
  intro s
  obtain ⟨hinflight, -, -, -, hpayload, -⟩ := texts_readBack
  have hlist : (Payload.toJson ⟨#[0xFF]⟩).render = "[255]" := by decide +kernel
  have htext : (Payload.toJson ⟨#[0x62]⟩).render = "\"b\"" := by decide +kernel
  have hlist_iff := (hpayload ⟨#[0xFF]⟩ _ (.head _)).1
  have htext_iff := (hpayload ⟨#[0x62]⟩ _ (.head _)).1
  rw [hlist] at hlist_iff
  rw [htext] at htext_iff
  exact ⟨hlist, mt hlist_iff.2 (by decide), htext, htext_iff.1 (by decide),
    (hinflight s _ (.head _)).1, (hinflight s _ (.tail _ (.head _))).2⟩

end Mqtt
