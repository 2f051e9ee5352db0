-- The arguments that a command is typed with, `input/command_service.cpp`.
import Aether.Util.Istream
import Aether.Util.Split

open lib.separators util.buffer util.string

namespace util.buffer.Istream

/-- `std::istream::peek`. -/
def peek (inp : Istream) : Option UInt8 × Istream :=
  if inp.good then
    match inp.rdbuf with
    | c :: _ => (some c, inp)
    | [] => (none, { inp with eofbit := true })
  else (none, { inp with failbit := true })

/-- `std::istream::get`. -/
def get (inp : Istream) : Option UInt8 × Istream :=
  if inp.good then
    match inp.rdbuf with
    | c :: rest => (some c, { inp with rdbuf := rest })
    | [] => (none, ⟨[], true, true⟩)
  else (none, { inp with failbit := true })

end util.buffer.Istream

namespace input.command_service

def space : UInt8 := 32

def line_feed : UInt8 := 10

/-- `read_arguments`, and the stream behind them. -/
def read_arguments (stream : Istream) : Option (List Text) × Istream :=
  let (c, stream) := stream.peek
  let stream := if c = some space then stream.get.2 else stream
  let (args_string, stream) := stream.getline line_feed
  (split args_string [space], stream)

/-- What is typed on the line behind the command. -/
def typed (stream : Istream) : Text :=
  if stream.good then
    let line := stream.rdbuf.takeWhile (fun c => c != line_feed)
    if line.head? = some space then line.tail else line
  else []

theorem getline_rest (rdbuf : Text) :
    ((⟨rdbuf, false, false⟩ : Istream).getline line_feed).1 =
      rdbuf.takeWhile (fun c => c != line_feed) := by
  simp only [Istream.getline, Istream.good, Bool.not_false, Bool.and_self, if_true]
  split <;> rfl

theorem read_arguments_eq (stream : Istream) :
    (read_arguments stream).1 = split (typed stream) [space] := by
  obtain ⟨rdbuf, eofbit, failbit⟩ := stream
  cases eofbit with
  | true => cases failbit <;> rfl
  | false =>
    cases failbit with
    | true => rfl
    | false =>
      cases rdbuf with
      | nil => rfl
      | cons c rest =>
        by_cases hc : c = space
        · subst hc
          exact congrArg (split · [space]) (getline_rest rest)
        · have hget : read_arguments ⟨c :: rest, false, false⟩ =
              (split ((⟨c :: rest, false, false⟩ : Istream).getline line_feed).1 [space],
                ((⟨c :: rest, false, false⟩ : Istream).getline line_feed).2) := by
            simp [read_arguments, Istream.peek, Istream.good, hc]
          rw [hget, getline_rest]
          by_cases hline : c = line_feed
          · subst hline
            rfl
          · simp [typed, Istream.good, hc, hline]

/-- `split` gives the pieces of a string, and the command its arguments, exactly when each piece
with a delimiter on both sides is what the string or the line starts with. -/
theorem split_right_iff {src delim : Text} (hdelim : delim ≠ []) (c : UInt8) (stream : Istream) :
    (Returned src delim (split src delim) ↔ InnerPrefixes src delim) ∧
    (Returned src [c] (split_char src c) ↔ InnerPrefixes src [c]) ∧
    ((read_arguments stream).1 = some (pieces [space] (typed stream)) ↔
      InnerPrefixes (typed stream) [space]) := by
  have hchar : ∀ c : UInt8, [c] ≠ [] := fun c => List.cons_ne_nil c []
  refine ⟨?_, ?_, ?_⟩
  · rw [split_eq hdelim]
    exact returned_iff hdelim src
  · rw [split_char_eq]
    exact returned_iff (hchar c) src
  · rw [read_arguments_eq, split_eq (hchar space), Option.some.injEq]
    exact pieces_kept_iff (hchar space) _

theorem split_right_two_arguments :
    text ", " ≠ [] ∧
    (Returned (text "a, b") (text ", ") (split (text "a, b") (text ", ")) ↔
      InnerPrefixes (text "a, b") (text ", ")) ∧
    (Returned (text "a, b") [44] (split_char (text "a, b") 44) ↔
      InnerPrefixes (text "a, b") [44]) ∧
    ((read_arguments (Istream.new (text " 8080 x\n"))).1 =
        some (pieces [space] (typed (Istream.new (text " 8080 x\n")))) ↔
      InnerPrefixes (typed (Istream.new (text " 8080 x\n"))) [space]) :=
  ⟨by decide, split_right_iff (by decide) 44 (Istream.new (text " 8080 x\n"))⟩

/-- The second of three arguments comes out as the start of the line. -/
theorem second_argument_lost :
    ¬ ∀ (src delim : Text), delim ≠ [] → ∀ (c : UInt8) (stream : Istream),
      Returned src delim (split src delim) ∧ Returned src [c] (split_char src c) ∧
        (read_arguments stream).1 = some (pieces [space] (typed stream)) := by
  intro h
  have hsplit : split (text "a b c") (text " ") = some [text "a", text "a", text "c"] := by decide
  obtain ⟨⟨tokens, heq, htokens⟩, -, -⟩ :=
    h (text "a b c") (text " ") (by decide) 0 (Istream.new [])
  rw [hsplit] at heq
  obtain rfl := Option.some.inj heq
  have hjoined := htokens.intercalated
  revert hjoined
  decide

end input.command_service
