import MissionText.Proofs.Mission.PoolForm
import MissionText.Proofs.Mission.RoundTrip
/-!
# Written out — a profile and the modules that it stands for

A profile goes by what the catalog says of a module. A list of identifiers goes
by the base game first, and takes the text apart at commas. So a mission whose
profiles are written out is not always read back. If all that it names is
writable, one thing alone can be lost: modules to be solved that are needy
components of the base game (`written_out_of_parse`). What is not writable may
be lost altogether (`profile_may_be_lost`).
-/

namespace MissionText

open Text

variable {context : Context} {text : String} {mission : Mission}

namespace Mission

/-- **What comes of a mission that is written out**, whatever the catalog says
about components. If all that it names is writable, the mission is read back,
as long as the base game still leaves it a pool of modules to be solved; and
if not, then that is all that is wrong with its line. -/
theorem written_out_of_parse {added : List BombModule}
    (hcatalog : context.catalog = Catalog.ofModules added)
    (hmax : context.maxModules < UInt32.size) (h : parse context text = .ok mission)
    (hids : mission.IdsWritable) :
    ((∃ pool ∈ mission.pools, pool.contents.AllSolvable context) →
      parse context mission.written = .ok mission) ∧
    ((¬ ∃ pool ∈ mission.pools, pool.contents.AllSolvable context) →
      parse context mission.written = .error [.noSolvableModules]) := by
  have hsorted : context.catalog.Sorted := hcatalog ▸ Catalog.sorted_ofModules added
  have hformed := formed_of_parse hsorted hmax h
  constructor
  · intro hsolvable
    exact Sound.parse_written_of_idsWritable ⟨hformed, hsolvable⟩ hids
  · intro hneedy
    exact hformed.parse_written_of_not_solvable hids hneedy

/-- A context in which a needy component has become a module to be solved. -/
def knobContext : Context where
  catalog := .ofModules [⟨"NeedyKnob", "Knob", .solvable, true⟩]
  profiles := .ofList [("Mods", modsOnly)]

/-- A context with a module whose identifier holds a comma. -/
def commaContext : Context where
  catalog := .ofModules [⟨"A,B", "A and B", .solvable, true⟩]
  profiles := .ofList [("Mods", modsOnly)]

/-- A component of another kind does no harm beside a pool that is solvable
without it. -/
theorem written_out_of_parse_wires :
    parse knobContext "profile:Mods Wires" =
        .ok ⟨240, 3, true, false, none, none, none,
          [⟨1, .named ["NeedyKnob"]⟩, ⟨1, .named ["Wires"]⟩]⟩ ∧
      parse knobContext (written ⟨240, 3, true, false, none, none, none,
          [⟨1, .named ["NeedyKnob"]⟩, ⟨1, .named ["Wires"]⟩]⟩) =
        .ok ⟨240, 3, true, false, none, none, none,
          [⟨1, .named ["NeedyKnob"]⟩, ⟨1, .named ["Wires"]⟩]⟩ := by
  have hread : parse knobContext "profile:Mods Wires" =
      .ok ⟨240, 3, true, false, none, none, none,
        [⟨1, .named ["NeedyKnob"]⟩, ⟨1, .named ["Wires"]⟩]⟩ := by
    decide +kernel
  have hids : IdsWritable ⟨240, 3, true, false, none, none, none,
      [⟨1, .named ["NeedyKnob"]⟩, ⟨1, .named ["Wires"]⟩]⟩ := by
    refine List.forall_mem_cons.2 ⟨?_, List.forall_mem_singleton.2 ?_⟩
    · exact List.forall_mem_singleton.2 (Component.writable .needyKnob)
    · exact List.forall_mem_singleton.2 (Component.writable .wires)
  refine ⟨hread, (written_out_of_parse rfl (by decide) hread hids).1 ⟨⟨1, .named ["Wires"]⟩, ?_⟩⟩
  refine ⟨by simp, List.forall_mem_singleton.2 fun hneedy => ?_⟩
  cases hneedy.unique (.component .wires rfl)

/-- **A profile that is written out may be lost**, where the catalog gives a
component another kind than the base game does, and where there is a comma in
an identifier. -/
theorem profile_may_be_lost :
    (∃ mission, parse knobContext "profile:Mods" = .ok mission ∧
      parse knobContext mission.written = .error [.noSolvableModules]) ∧
    ∃ mission, parse commaContext "profile:Mods" = .ok mission ∧
      parse commaContext mission.written =
        .error [.unknownModule "A", .unknownModule "B", .noSolvableModules] := by
  refine ⟨⟨⟨120, 3, true, false, none, none, none, [⟨1, .named ["NeedyKnob"]⟩]⟩, ?_, ?_⟩,
    ⟨120, 3, true, false, none, none, none, [⟨1, .named ["A,B"]⟩]⟩, ?_, ?_⟩
  · decide +kernel
  · decide +kernel
  · decide +kernel
  · decide +kernel

end Mission

end MissionText
