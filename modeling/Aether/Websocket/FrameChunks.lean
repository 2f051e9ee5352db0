-- The frames of a stream, however its bytes come in: the calls of `parse` after
-- each piece return what the calls on the whole stream do.
import Aether.Websocket.FrameReading
import Aether.Websocket.ParserCalls

namespace proxy.websocket.protocol

open extensions lib.resumable

variable {z : Zlib}

theorem drainAll_parse_nil {fp : FrameParser z} (hi : Idle fp) :
    drainAll parse_step pending fp [] = ⟨fp, [], [], none⟩ := by
  have hparse := parse_nil hi
  have hmore : (parse_step fp []).outcome = .more := by simp only [parse_step, frame_step, hparse]
  rw [drainAll_more hmore]
  simp only [parse_step, frame_step, hparse]

/-- The pieces of a stream give the frames of the stream, and its halt. -/
theorem feed_parse_step {fp : FrameParser z} (hi : Idle fp) (pieces : List (List UInt8)) :
    (feed parse_step pending fp [] pieces).items =
        (drainAll parse_step pending fp pieces.flatten).items ∧
      (feed parse_step pending fp [] pieces).halted =
        (drainAll parse_step pending fp pieces.flatten).halted := by
  by_cases hne : pieces = []
  · subst hne
    rw [List.flatten_nil, drainAll_parse_nil hi]
    exact ⟨rfl, rfl⟩
  · obtain ⟨b, hb⟩ := feed_eq_drainAll resumable_parse_step hi.tidy hne
    rw [hb]
    exact ⟨rfl, rfl⟩

end proxy.websocket.protocol
