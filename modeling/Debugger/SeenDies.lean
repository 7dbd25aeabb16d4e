/-
The DIEs that the scans of a dump see.

A line begins a DIE when `dwarf_starts_die` holds of it, and the DIE goes on up to the next such
line, whatever the tree is the text was printed from (`seen`).  In a plain text without overlong
lines these are the entries (`seen_of_plain`); a name like `pNULL` cuts the DIE it is in.
-/
import Debugger.Dwarfdump
import Debugger.Lib.Blocks

open Prog

namespace Debugger

/-- A DIE as the scans see it: its lines, each with the entry it is printed for. -/
abbrev SeenDie := Block (Entry × CStr)

namespace SeenDie

/-- The entry whose lines the DIE begins in. -/
def entry (x : SeenDie) : Entry := x.head.1

/-- The first line. -/
def line (x : SeenDie) : CStr := x.head.2

/-- The lines behind the first one. -/
def rest (x : SeenDie) : List CStr := x.body.map (·.2)

/-- The first line is taken for that of a DIE with the tag. -/
def is (tag : Tag) (x : SeenDie) : Bool := strstr x.line tag.text

/-- The first line is taken for the end of a list of children. -/
def isNull (x : SeenDie) : Bool := strstr x.line "NULL".toList

end SeenDie

/-- The lines that are read, each with its entry. -/
def readLines (es : List Entry) : List (Entry × CStr) :=
  es.flatMap fun e => e.readLines.map (e, ·)

/-- A line that begins a DIE. -/
def startsDie (l : Entry × CStr) : Bool := dwarfStartsDie l.2

/-- The DIEs seen in the text. -/
def seen (es : List Entry) : List SeenDie := blocks startsDie (readLines es)

/-- An entry as it is seen when its texts are plain. -/
def Entry.seenDie (e : Entry) : SeenDie :=
  ⟨(e, headerLine e.depth e.offset e.text),
    (e.attrs.map (attrLine e.depth) ++ [['\n']]).map (e, ·)⟩

section Seen

variable {e : Entry} {es : List Entry}

theorem map_readLines : (readLines es).map (·.2) = fgetsLines maxDumpLine (dumpText es) := by
  rw [readLines, fgetsLines_dumpText, List.map_flatMap]
  refine congrArg (List.flatMap · es) (funext fun e => ?_)
  rw [List.map_map]
  exact List.map_id _

/-- In a plain text the entries are seen. -/
theorem seen_of_plain (hplain : ∀ e ∈ es, e.Plain) (hfits : FitsLines es) :
    seen es = es.map Entry.seenDie ∧ lead startsDie (readLines es) = [] := by
  induction es with
  | nil => exact ⟨rfl, rfl⟩
  | cons e es ih =>
    obtain ⟨he, hes⟩ := List.forall_mem_cons.mp hplain
    rw [FitsLines, List.flatMap_cons, List.forall_mem_append] at hfits
    obtain ⟨hblocks, hlead⟩ := ih hes hfits.2
    have hlines : e.readLines = e.lines := e.readLines_of_plain he (by
      rw [FitsLines, List.flatMap_singleton]
      exact hfits.1)
    have hread : readLines (e :: es) = e.seenDie.head :: e.seenDie.body ++ readLines es := by
      rw [readLines, List.flatMap_cons, hlines]
      rfl
    have hstart : startsDie e.seenDie.head = true := dwarfStartsDie_header e
    have hbody : ∀ l ∈ e.seenDie.body, startsDie l = false := by
      intro l hl
      obtain ⟨line, hline, rfl⟩ := List.mem_map.mp hl
      rcases List.mem_append.mp hline with h | h
      · obtain ⟨a, ha, rfl⟩ := List.mem_map.mp h
        exact dwarfStartsDie_attrLine (he a ha)
      · rw [List.mem_singleton.mp h]
        rfl
    rw [seen, hread, blocks_block hstart hbody hlead, List.map_cons]
    exact ⟨congrArg _ hblocks, lead_cons_start hstart⟩

theorem rest_seenDie : e.seenDie.rest = e.attrs.map (attrLine e.depth) ++ [['\n']] := by
  rw [SeenDie.rest, Entry.seenDie, List.map_map]
  exact List.map_id _

/-- What is read of the lines of an entry as it is seen when its texts are plain. -/
theorem foldl_rest_seenDie {σ : Type} {f : σ → CStr → σ} {g : σ → Attr → σ} (he : e.Plain)
    (hattr : ∀ s a, a.Plain → f s (attrLine e.depth a) = g s a) (hempty : ∀ s, f s ['\n'] = s)
    (s : σ) : e.seenDie.rest.foldl f s = e.attrs.foldl g s := by
  rw [rest_seenDie, List.foldl_append, List.foldl_cons, List.foldl_nil, hempty, List.foldl_map]
  refine List.foldl_ext _ _ s fun s a ha => hattr s a (he a ha)

end Seen

end Debugger
