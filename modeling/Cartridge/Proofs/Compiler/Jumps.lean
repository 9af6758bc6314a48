import Cartridge.Proofs.Compiler.Calls
import Cartridge.Proofs.Register.Labels

/-!
# Where jumps of the stream go

Labels are numbered anew in every routine, and the stream joins the routines,
each behind a label with its name. So a jump finds one label in its own routine.
In the whole stream it finds no other exactly if no other routine has that label
and no routine has it for a name.
-/

namespace Cartridge

namespace Register

-- ---------------------------------------------------------------------------
-- Labels of joined routines
-- ---------------------------------------------------------------------------

theorem labels_append (code code' : List Instr) :
    labels (code ++ code') = labels code ++ labels code' :=
  List.filterMap_append

theorem labels_stream (r : Routine) : labels r.stream = r.name :: labels r.instrs := rfl

theorem mem_labels_flatMap {rs : List Routine} :
    name ∈ labels (rs.flatMap Routine.stream) ↔
      ∃ r ∈ rs, r.name = name ∨ name ∈ labels r.instrs := by
  rw [labels, List.filterMap_flatMap, List.mem_flatMap]
  refine exists_congr fun r => and_congr_right fun _ => ?_
  change name ∈ labels r.stream ↔ _
  rw [labels_stream, List.mem_cons, eq_comm]

/-- What one routine defines once is defined once by all of them if no other defines it and none
is called so. -/
theorem count_labels_flatMap {before after : List Routine} {r : Routine}
    (h : (labels r.instrs).count name = 1) :
    (labels ((before ++ r :: after).flatMap Routine.stream)).count name = 1 ↔
      (∀ s ∈ before ++ after, name ∉ labels s.instrs) ∧
        ∀ s ∈ before ++ r :: after, s.name ≠ name := by
  have hcount : (labels ((before ++ r :: after).flatMap Routine.stream)).count name =
      (labels (before.flatMap Routine.stream)).count name +
        (if r.name = name then 1 else 0) + 1 +
        (labels (after.flatMap Routine.stream)).count name := by
    simp only [List.flatMap_append, List.flatMap_cons, labels_append, labels_stream,
      List.count_append, List.count_cons, h, beq_iff_eq]
    omega
  have hnone (rs : List Routine) : (labels (rs.flatMap Routine.stream)).count name = 0 ↔
      ∀ s ∈ rs, s.name ≠ name ∧ name ∉ labels s.instrs := by
    rw [List.count_eq_zero, mem_labels_flatMap]
    grind
  have hsplit : (labels ((before ++ r :: after).flatMap Routine.stream)).count name = 1 ↔
      (labels (before.flatMap Routine.stream)).count name = 0 ∧ r.name ≠ name ∧
        (labels (after.flatMap Routine.stream)).count name = 0 := by
    rw [hcount]
    split
    · next hname =>
      simp only [ne_eq, hname, not_true_eq_false, false_and, and_false, iff_false]
      omega
    · next hname =>
      simp only [ne_eq, hname, not_false_eq_true, true_and]
      omega
  rw [hsplit, hnone, hnone]
  grind

theorem count_labels_of_jump (h : lower p = .ok q) (hp : p.WellLabelled) (hr : r ∈ q.routines)
    (hjump : .jump target c ∈ r.instrs) : (labels r.instrs).count target = 1 :=
  (wellLabelled_of_lower h hp r hr).defined target (List.mem_filterMap.mpr ⟨_, hjump, rfl⟩)

theorem mem_routines_of_jump (h : lower p = .ok q) (hjump : .jump target c ∈ q.stream) :
    ∃ r ∈ q.routines, .jump target c ∈ r.instrs := by
  obtain ⟨-, -, -, hstream⟩ := lower_cases h
  rw [hstream] at hjump
  obtain ⟨r, hr, hjump⟩ := List.mem_flatMap.mp hjump
  refine ⟨r, hr, ?_⟩
  simpa [Routine.stream] using hjump

end Register

namespace Listing

open Register (Instr)

/-- A comment of the listing is the line of a jump. -/
theorem jump_of_comment {i : Instr} (hnamed : i.isNamed) (hline : instrLine? true i = some line)
    (hcomment : line.toList.head? = some ';') : ∃ target c, i = .jump target c := by
  obtain ⟨-, hspeaks, -⟩ := callee?_of_instrLine hnamed hline
  obtain ⟨text, htext⟩ := List.head?_eq_some_iff.mp hcomment
  rw [speaks_of_head htext rfl] at hspeaks
  cases i with
  | jump target c => exact ⟨target, c, rfl⟩
  | _ => cases hspeaks

end Listing

/-- In the stream of a source every jump goes to one label of its own routine, and to no other
exactly if no other routine defines that label and none is called so. The jumps in the listing are
those of the stream. -/
theorem jump_labels (hparse : Pascal.parse source = .ok p)
    (hlower : Register.lower p.lower = .ok q) :
    q.stream = q.routines.flatMap Register.Routine.stream ∧
    (∀ before r after, q.routines = before ++ r :: after →
      ∀ target c, .jump target c ∈ r.instrs →
        (Register.labels r.instrs).count target = 1 ∧
        ((Register.labels q.stream).count target = 1 ↔
          (∀ s ∈ before ++ after, target ∉ Register.labels s.instrs) ∧
            ∀ s ∈ q.routines, s.name ≠ target)) ∧
    ∀ line ∈ (Listing.ofProgram true q).lines, "; JMP ".toList <+: line.toList →
      ∃ r ∈ q.routines, ∃ target c, .jump target c ∈ r.instrs ∧
        Listing.instrLine? true (.jump target c) = some line := by
  obtain ⟨-, -, -, hstream⟩ := Register.lower_cases hlower
  refine ⟨hstream, fun before r after hroutines target c hjump => ?_, fun line hline hmark => ?_⟩
  · have hr : r ∈ q.routines := by simp [hroutines]
    have hown := Register.count_labels_of_jump hlower (Flat.wellLabelled_lower p) hr hjump
    refine ⟨hown, ?_⟩
    rw [hstream, hroutines]
    exact Register.count_labels_flatMap hown
  · have hoff : Register.lower (p.lower.optimize .off) = .ok q := hlower
    have hnamed := Register.isNamed_of_lower (Pascal.all_isWord_of_parse hparse) hoff
    obtain ⟨i, hi, hline⟩ := List.mem_filterMap.mp hline
    obtain ⟨rest, hrest⟩ := hmark
    obtain ⟨target, c, rfl⟩ := Listing.jump_of_comment (hnamed i hi) hline (by rw [← hrest]; rfl)
    obtain ⟨r, hr, hjump⟩ := Register.mem_routines_of_jump hlower hi
    exact ⟨r, hr, target, c, hjump, hline⟩

/-- A loop in one routine and a branch in another have labels of different families. -/
theorem jump_labels_families :
    let source := "procedure P; begin while x do end; begin if x then end."
    ∃ p q before r, Pascal.parse source = .ok p ∧ Register.lower p.lower = .ok q ∧
      q.routines = before ++ r :: [] ∧ .jump "endif_0" none ∈ r.instrs ∧
      (Register.labels r.instrs).count "endif_0" = 1 ∧
      (Register.labels q.stream).count "endif_0" = 1 := by
  intro source
  let p : Pascal.Program := { modules := [⟨"main",
    [{ name := "P", body := [.loop (.ident "x") []] },
      { name := "main", body := [.ifThen (.ident "x") []] }]⟩] }
  let loop : Register.Routine := ⟨"P",
    [.label "while_start_0", .jump "while_body_0" (some "x"), .jump "while_end_0" none,
      .label "while_body_0", .jump "while_start_0" none, .label "while_end_0"]⟩
  let main : Register.Routine := ⟨"main",
    [.jump "then_0" (some "x"), .jump "endif_0" none, .label "then_0", .label "endif_0"]⟩
  let ks : List Pascal.Kind :=
    [.keyword .procedure, .ident "P", .sign .semicolon, .keyword .begin, .keyword .while,
      .ident "x", .keyword .do_, .keyword .end_, .sign .semicolon, .keyword .begin, .keyword .if_,
      .ident "x", .keyword .then_, .keyword .end_, .sign .dot]
  have hlex : (Pascal.lexFrom 0 source.toList).map Pascal.kinds = .ok ks := by
    dsimp only [source]
    with_unfolding_all rfl
  have hparse : Pascal.parse source = .ok p :=
    Pascal.parse_of_kinds hlex (by with_unfolding_all rfl)
  have hlower : Register.lower p.lower = .ok (.ofModules "" [⟨"main", [loop, main]⟩]) := by
    with_unfolding_all rfl
  obtain ⟨hown, hall⟩ := (jump_labels hparse hlower).2.1 [loop] main [] rfl "endif_0" none
    (by decide)
  exact ⟨p, _, [loop], main, hparse, hlower, rfl, by decide, hown, hall.mpr (by decide)⟩

/-- Branches that start two routines have the same labels. -/
theorem jump_finds_two_labels :
    let source := "procedure P; begin if x then end; begin if x then end."
    ∃ p q, Pascal.parse source = .ok p ∧ Register.lower p.lower = .ok q ∧
      .jump "endif_0" none ∈ q.stream ∧ "; JMP endif_0" ∈ (Listing.ofProgram true q).lines ∧
      (Register.labels q.stream).count "endif_0" = 2 := by
  intro source
  let p : Pascal.Program := { modules := [⟨"main",
    [{ name := "P", body := [.ifThen (.ident "x") []] },
      { name := "main", body := [.ifThen (.ident "x") []] }]⟩] }
  let code : List Register.Instr :=
    [.jump "then_0" (some "x"), .jump "endif_0" none, .label "then_0", .label "endif_0"]
  let ks : List Pascal.Kind :=
    [.keyword .procedure, .ident "P", .sign .semicolon, .keyword .begin, .keyword .if_,
      .ident "x", .keyword .then_, .keyword .end_, .sign .semicolon, .keyword .begin, .keyword .if_,
      .ident "x", .keyword .then_, .keyword .end_, .sign .dot]
  have hlex : (Pascal.lexFrom 0 source.toList).map Pascal.kinds = .ok ks := by
    dsimp only [source]
    with_unfolding_all rfl
  have hparse : Pascal.parse source = .ok p :=
    Pascal.parse_of_kinds hlex (by with_unfolding_all rfl)
  have hlower : Register.lower p.lower =
      .ok (.ofModules "" [⟨"main", [⟨"P", code⟩, ⟨"main", code⟩]⟩]) := by
    with_unfolding_all rfl
  exact ⟨p, _, hparse, hlower, by decide, by decide +kernel, by decide⟩

end Cartridge
