import MissionText.Proofs.Checked.Cycle
import MissionText.Proofs.Checked.Hover
import MissionText.Proofs.Checked.Parse
/-!
# No step fails

Whatever is asked about a line, with a cursor anywhere in it or past its end,
every step that is checked can be taken, and what comes of the steps is what is
defined without them. This holds for the requests to a cycle as well, and for
texts that the cycle was not made for.
-/

namespace MissionText.Checked

/-- **No index and no slice is out of bounds, and no difference is negative**:
scanning, parsing, suggesting, picking, closing up, hovering, making a cycle and
any run of requests to it all succeed. -/
theorem never_fails (matcher : Matcher) (context : Context) (text : String) (offset : Nat) :
    scan matcher text.toList = .ok (Scan.ofText text) ∧
    parse matcher context text = .ok (Mission.parse context text) ∧
    suggest matcher context text offset = .ok (context.suggest text offset) ∧
    (∀ candidate, pick matcher text offset candidate = .ok (Edit.pick text offset candidate)) ∧
    closeUp text offset = .ok (Edit.closeUp? text offset) ∧
    hover matcher context text offset = .ok (context.hover? text offset) ∧
    ∀ candidates,
      Checked.cycle matcher text offset candidates = .ok (Cycle.ofText text offset candidates) ∧
      ∀ requests, answers matcher (Cycle.ofText text offset candidates) requests =
        .ok ((Cycle.ofText text offset candidates).answers requests) :=
  ⟨scan_eq matcher text.toList, parse_eq matcher context text,
    suggest_eq matcher context text offset, pick_eq matcher text offset, closeUp_eq text offset,
    hover_eq matcher context text offset, fun candidates =>
      ⟨cycle_eq matcher text offset candidates,
        answers_eq matcher (placed_ofText text offset candidates)⟩⟩

/-- A cycle that is started inside a character, and turned in a text that is too
short for it. -/
theorem never_fails_stale :
    answers .ascii (Cycle.ofText "Wé" 2 [.byId "Wires" "Wires" 1])
        [.turn "Wé" .forward, .turn "é" .backward, .selected] =
      .ok [.turned (some ⟨"Wiresé", 5⟩), .turned none,
        .selected (some (.byId "Wires" "Wires" 1))] := by
  obtain ⟨-, -, -, -, -, -, hcycle⟩ := never_fails .ascii {} "Wé" 2
  rw [(hcycle _).2]
  decide +kernel

end MissionText.Checked
