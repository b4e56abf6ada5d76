import Simvacation.AutoSubmitted
import Simvacation.Main

/-!
The body of a message does not matter. Whatever the length of a header line, the
read that takes its line feed ends there, so the empty line begins a read of its
own and ends the loop. Two runs on messages that differ behind the empty line
go through the same reads up to there, and then through nothing.
-/

namespace Simvacation.BodyIndependence

open CString Readheaders HeaderLines Messages ResponderLoop AutoSubmitted Vdb Main

/-- Two messages with the same header lines, whatever stands behind them and
whatever the buffer held before, give the same result. -/
theorem readheaders_body {lines : List Bytes} (hlf : ∀ line ∈ lines, lf ∉ line)
    (names : List Bytes) (stack stack' : Bytes) (body body' : Option Bytes) :
    readheaders stack names (rawMessage lines body) =
      readheaders stack' names (rawMessage lines body') := by
  rw [readheaders_rawMessage_eq hlf, readheaders_rawMessage_eq hlf]

/-- A header line longer than the buffer, and two bodies that look like headers. -/
theorem readheaders_list_body :
    readheaders [] [bytes "bob"]
        (rawMessage [bytes "To: bob", List.replicate 1500 120] (some (bytes "List-Id: a\n"))) =
      readheaders [7] [bytes "bob"]
        (rawMessage [bytes "To: bob", List.replicate 1500 120] (some (bytes "To: eve\n\n"))) := by
  apply readheaders_body
  intro line hline
  rcases List.mem_cons.mp hline with rfl | hline
  · decide
  · rw [List.mem_singleton.mp hline]
    exact fun h => absurd (List.eq_of_mem_replicate h) (by decide)

variable {L : Type}

/-- A run sees nothing of the message but what `readheaders` makes of it. -/
theorem main_eq_of_readheaders (args : Args) (world : World L) (store : Store) {stack stdin : Bytes}
    (h : ∀ names, readheaders stack names stdin = readheaders world.stack names world.stdin) :
    main args { world with stack := stack, stdin := stdin } store = main args world store := by
  have haccept : ∀ found : Found L,
      found.accept { world with stack := stack, stdin := stdin } = found.accept world := by
    intro found
    simp only [Found.accept, h]
  have hadmitted : admitted args { world with stack := stack, stdin := stdin } =
      admitted args world := by
    simp only [admitted, accept, haccept]
    rfl
  simp only [main, hadmitted]
  rfl

/-- A whole run comes out the same whatever the body is: how it ends, the store it
leaves and what it sends. -/
theorem main_body {lines : List Bytes} (hlf : ∀ line ∈ lines, lf ∉ line) (args : Args)
    (world : World L) (store : Store) (body body' : Option Bytes) :
    main args { world with stdin := rawMessage lines body } store =
      main args { world with stdin := rawMessage lines body' } store := by
  apply main_eq_of_readheaders args { world with stdin := rawMessage lines body' } store
  intro names
  rw [readheaders_rawMessage_eq hlf, readheaders_rawMessage_eq hlf]

end Simvacation.BodyIndependence
