import SoftPlc.Control.Reply
import SoftPlc.Proofs.Text.Utf8

/-!
# Requests on the wire

What the engine can make of the bytes that the client sends. A request is the
text of a command and a newline, and the engine sees neither where the text was
put together nor which command it was put together from. It has to find the end
of the line, and then the command.

That the end can be found is a matter of bytes. No text of a command contains a
newline character, and in UTF-8 the byte of a newline stands for nothing else,
so the first newline in the bytes is the one that the client has added. That
the command can be found is a matter of the text: the name before the
parenthesis tells all commands apart but two starts of one service, and these
differ in the number, which has one decimal form only.

`Command.read?` does both. It takes the first line off some bytes, whatever
stands behind it, and accepts exactly the requests.

## Main definitions

* `Command.read?`: The command in the first line, and the bytes behind it.

## Theorems

* `Command.newline_not_mem_encode`: The text of a command is one line.
* `Command.read?_request`: A request is read back, whatever follows.
* `Command.eq_request_of_read?`: Nothing else is read.
* `Command.requests_unambiguous`: Requests and commands are one and the same.
-/

namespace SoftPlc

namespace Command

/-- The command in the first line of some bytes, and what stands behind that
    line. -/
def read? (bytes : List UInt8) : Option (Command × List UInt8) :=
  match bytes.dropWhile (· != Client.newline) with
  -- The line is not whole yet.
  | [] => none
  | _ :: rest => do
    let text ← Text.Utf8.decode? (bytes.takeWhile (· != Client.newline))
    let command ← ofWire? (String.ofList text)
    some (command, rest)

theorem newline_not_mem_name (c : Command) : '\n' ∉ c.name.toList := by
  rcases c with _ | _ | ⟨service, _⟩ | service | _ <;> (try cases service) <;>
    simp [name, Service.name]

/-- The argument is a number in decimal digits, or nothing. -/
theorem newline_not_mem_argument (c : Command) : '\n' ∉ c.argument.toList := by
  cases c with
  | start service value =>
      rw [argument_start]
      intro hmem
      have hdigit := Nat.isDigit_of_mem_toDigits (b := 10) (by decide) (by decide) hmem
      exact absurd hdigit (by decide)
  | _ => exact List.not_mem_nil

/-- The text of a command is one line. -/
theorem newline_not_mem_wire (c : Command) : '\n' ∉ c.wire.toList := by
  rw [toList_wire]
  simp [newline_not_mem_name, newline_not_mem_argument]

/-- So it is in bytes. -/
theorem newline_not_mem_encode (c : Command) : Client.newline ∉ Text.Utf8.encode c.wire := by
  rw [Text.Utf8.encode_eq, Text.Utf8.mem_encode_ascii (by decide)]
  exact newline_not_mem_wire c

/-- A request is read back, whatever follows. -/
theorem read?_request (c : Command) (rest : List UInt8) :
    read? (Client.request c.wire ++ rest) = some (c, rest) := by
  have hline : ∀ b ∈ Text.Utf8.encode c.wire, (b != Client.newline) = true :=
    fun b hb => bne_iff_ne.mpr fun h => newline_not_mem_encode c (h ▸ hb)
  have hrequest : Client.request c.wire ++ rest
      = Text.Utf8.encode c.wire ++ Client.newline :: rest := by
    rw [Client.request, List.append_assoc]
    rfl
  have htext : ofWire? c.wire = some c := ofWire?_eq_some_iff.mpr rfl
  rw [hrequest, read?, List.dropWhile_append_of_pos hline, List.takeWhile_append_of_pos hline,
    List.dropWhile_cons_of_neg (by simp), List.takeWhile_cons_of_neg (by simp), List.append_nil,
    Text.Utf8.decode?_encode]
  simp [htext]

example : read? (Client.request "start_modbus(502)" ++ Client.request "quit()")
    = some (start .modbus 502, Client.request "quit()") := by
  decide +kernel

/-- What is read is a request. -/
theorem eq_request_of_read? {bytes rest : List UInt8} {c : Command}
    (h : read? bytes = some (c, rest)) : bytes = Client.request c.wire ++ rest := by
  have hbytes := List.takeWhile_append_dropWhile (p := (· != Client.newline)) (l := bytes)
  rw [read?] at h
  split at h
  next => exact absurd h (by simp only [reduceCtorEq, not_false_eq_true])
  next b behind hdrop =>
    -- What stands first behind the line is the newline that ends it.
    have hb : b = Client.newline := by
      have hhead := List.head?_dropWhile_not (· != Client.newline) bytes
      rw [hdrop] at hhead
      simpa using hhead
    simp only [Option.bind_eq_bind, Option.bind_eq_some_iff, Option.some.injEq,
      Prod.mk.injEq] at h
    rcases h with ⟨text, htext, command, hcommand, rfl, rfl⟩
    have hwire : command.wire.toList = text := by
      rw [ofWire?_eq_some_iff.mp hcommand, String.toList_ofList]
    rw [← hbytes, hdrop, hb, Text.Utf8.decode?_eq_some_iff.mp htext, ← hwire,
      ← Text.Utf8.encode_eq, Client.request, List.append_assoc]
    rfl

/-- Requests are unambiguous: commands with the same text are the same, what is
    sent is the text and a newline, there is no newline in the text, and from
    the first line of any bytes a command is read exactly if the bytes begin
    with its request. -/
theorem requests_unambiguous :
    (∀ c d : Command, c.wire = d.wire ↔ c = d) ∧
    (∀ c : Command, Client.request c.wire = Text.Utf8.encode c.wire ++ [Client.newline] ∧
      Client.newline ∉ Text.Utf8.encode c.wire) ∧
    ∀ (c : Command) (bytes rest : List UInt8),
      read? bytes = some (c, rest) ↔ bytes = Client.request c.wire ++ rest := by
  refine ⟨fun c d => ⟨wire_injective, congrArg wire⟩,
    fun c => ⟨rfl, newline_not_mem_encode c⟩, fun c bytes rest => ⟨eq_request_of_read?, ?_⟩⟩
  rintro rfl
  exact read?_request c rest

end Command

end SoftPlc
