/-
`show globals`: what `collect_show_vars` lists, with the address of each.

The list is filled from two sources, the variables of the debug information and the symbols of
data, and it has no name twice.  It has no address twice exactly if nothing finds room in it at the
address of what is listed already (`globals_once_iff`).  A variable and its symbol have different
names, so the list has an address twice as soon as both find room.
-/
import Debugger.ShowVars

open Prog

namespace Debugger

/-- `CDBG_MAX_SHOW_VARS` -/
def maxShowVars : ℕ := 128

/-! ### The two sources -/

/-- The variables of the debug information that `show globals` puts into its list. -/
def globalVars (syms : Syms) (pc fp : Addr) (es : List Entry) : List ShowVar :=
  listedBefore .globals syms pc fp (seen es)

/-- A symbol that `collect_globals_from_syms` puts into the list. -/
def SymEntry.isGlobalData (entry : SymEntry) : Bool :=
  entry.address ≠ 0 && symIsGlobalData entry.type && entry.name ≠ []

/-- The variable that it makes of a symbol. -/
def Syms.showVar (syms : Syms) (entry : SymEntry) : ShowVar where
  var := { name := snprintf maxVarName entry.name, type := "unsigned long".toList }
  addr := syms.runtimeAddr entry.address

/-- The symbols of data, as variables. -/
def dataSymbols (syms : Syms) : List ShowVar :=
  (syms.entries.filter (·.isGlobalData)).map syms.showVar

/-- The name of a variable fits into its field. -/
def ShowVar.Fits (v : ShowVar) : Prop := snprintf maxVarName v.var.name = v.var.name

section Sources

variable {syms : Syms} {pc fp : Addr} {max : ℕ} {vars : List ShowVar} {es : List Entry}

theorem Syms.showVar_fits (entry : SymEntry) : (syms.showVar entry).Fits :=
  snprintf_snprintf maxVarName entry.name

theorem parseQuotedValue_fits {line : CStr} {name : CStr}
    (h : snprintf maxVarName name = name) :
    snprintf maxVarName ((parseQuotedValue maxVarName line).getD name) =
      (parseQuotedValue maxVarName line).getD name := by
  cases hread : parseQuotedValue maxVarName line with
  | none => exact h
  | some text =>
    rw [parseQuotedValue] at hread
    split at hread
    · cases hread
    · split at hread
      · obtain rfl := Option.some.inj hread
        exact snprintf_snprintf maxVarName _
      · cases hread

/-- Each name that is read is cut off so as to fit. -/
theorem showRead_lines_fits {inFunc : Bool} {lines : List CStr} {r : ShowRead}
    (h : snprintf maxVarName r.var.name = r.var.name) :
    snprintf maxVarName (lines.foldl (ShowRead.line inFunc) r).var.name =
      (lines.foldl (ShowRead.line inFunc) r).var.name := by
  induction lines generalizing r with
  | nil => exact h
  | cons line lines ih =>
    rw [List.foldl_cons]
    refine ih ?_
    rw [ShowRead.line]
    split
    · exact h
    rw [ShowRead.attr]
    split
    · cases parseFbregOffset line with
      | some offset => exact h
      | none => cases parseAddrLocation line <;> exact h
    split
    · exact parseQuotedValue_fits h
    split <;> exact h

theorem globalVars_mem {v : ShowVar} (hv : v ∈ globalVars syms pc fp es) :
    v.var.name ≠ [] ∧ v.Fits := by
  obtain ⟨front, back, hsplit⟩ := List.append_of_mem hv
  obtain ⟨before, x, after, -, hhit, -⟩ := exists_split_of_hitsAlong hsplit
  rw [showHit, Option.bind_eq_some_iff] at hhit
  obtain ⟨formal, -, hhit⟩ := hhit
  rw [shownVar] at hhit
  split at hhit
  · rename_i hlisted
    obtain rfl := Option.some.inj hhit
    exact ⟨of_decide_eq_true (Bool.and_eq_true_iff.mp hlisted).1, showRead_lines_fits rfl⟩
  · cases hhit

theorem dataSymbols_mem {v : ShowVar} (hv : v ∈ dataSymbols syms) :
    ∃ entry ∈ syms.entries, entry.isGlobalData = true ∧ syms.showVar entry = v := by
  obtain ⟨entry, hentry, rfl⟩ := List.mem_map.mp hv
  obtain ⟨hmem, hdata⟩ := List.mem_filter.mp hentry
  exact ⟨entry, hmem, hdata, rfl⟩

theorem SymEntry.isGlobalData_name {entry : SymEntry} (h : entry.isGlobalData = true) :
    entry.name ≠ [] :=
  of_decide_eq_true (Bool.and_eq_true_iff.mp h).2

theorem snprintf_ne_nil {name : CStr} (h : name ≠ []) : snprintf maxVarName name ≠ [] := by
  obtain ⟨c, cs, rfl⟩ := List.exists_cons_of_ne_nil h
  exact List.cons_ne_nil c _

theorem dataSymbols_name {v : ShowVar} (hv : v ∈ dataSymbols syms) : v.var.name ≠ [] := by
  obtain ⟨entry, -, hdata, rfl⟩ := dataSymbols_mem hv
  exact snprintf_ne_nil (SymEntry.isGlobalData_name hdata)

/-- A symbol is put into the list like a variable; the checks in front of it change nothing. -/
theorem pushSymbol_eq (hfits : ∀ v ∈ vars, v.Fits) (entry : SymEntry) :
    (if vars.length ≥ max then vars
      else if entry.address = 0 || !symIsGlobalData entry.type then vars
      else if showVarNameExists vars entry.name then vars
      else showVarPush max vars (syms.showVar entry)) =
      if entry.isGlobalData then showVarPush max vars (syms.showVar entry) else vars := by
  have hname : (syms.showVar entry).var.name = snprintf maxVarName entry.name := rfl
  by_cases hfull : vars.length ≥ max
  · have hpush : showVarPush max vars (syms.showVar entry) = vars := by
      rw [showVarPush, if_pos hfull, ite_self]
    rw [if_pos hfull, hpush, ite_self]
  rw [if_neg hfull]
  by_cases hdata : (entry.address = 0 || !symIsGlobalData entry.type) = true
  · have hno : ¬ entry.isGlobalData = true := by
      rw [SymEntry.isGlobalData]
      rcases Bool.or_eq_true_iff.mp hdata with h | h
      · simp [of_decide_eq_true h]
      · have hother : symIsGlobalData entry.type = false := by simpa using h
        simp [hother]
    rw [if_pos hdata, if_neg hno]
  rw [if_neg hdata]
  by_cases hempty : entry.name = []
  · have hpush : showVarPush max vars (syms.showVar entry) = vars := by
      rw [showVarPush, hname, hempty]
      exact if_pos rfl
    rw [hpush, ite_self, ite_self]
  have hyes : entry.isGlobalData = true := by
    simp only [Bool.or_eq_true, decide_eq_true_eq, Bool.not_eq_true', not_or,
      Bool.not_eq_false] at hdata
    simp [SymEntry.isGlobalData, hdata, hempty]
  rw [if_pos hyes]
  by_cases hexists : showVarNameExists vars entry.name = true
  · -- the whole name is in the list, so it fits
    obtain ⟨v, hv, hvname⟩ := List.mem_map.mp (showVarNameExists_iff.mp hexists)
    have hcut : snprintf maxVarName entry.name = entry.name := by
      rw [← hvname]
      exact hfits v hv
    have hpush : showVarPush max vars (syms.showVar entry) = vars := by
      rw [showVarPush, hname, hcut, if_neg hempty, if_neg hfull, if_pos hexists]
    rw [hpush, ite_self]
  · rw [if_neg hexists]

theorem showVarPush_fits {v : ShowVar} (hvars : ∀ u ∈ vars, u.Fits) (hv : v.Fits) :
    ∀ u ∈ showVarPush max vars v, u.Fits := by
  rw [showVarPush]
  split
  · exact hvars
  split
  · exact hvars
  split
  · exact hvars
  · intro u hu
    rcases List.mem_append.mp hu with hu | hu
    · exact hvars u hu
    · rw [List.mem_singleton.mp hu]
      exact hv

theorem pushes_fits {xs : List ShowVar} (hvars : ∀ u ∈ vars, u.Fits) (hxs : ∀ v ∈ xs, v.Fits) :
    ∀ u ∈ xs.foldl (showVarPush max) vars, u.Fits := by
  induction xs generalizing vars with
  | nil => exact hvars
  | cons x xs ih =>
    obtain ⟨hx, hxs⟩ := List.forall_mem_cons.mp hxs
    exact ih (showVarPush_fits hvars hx) hxs

/-- The symbols are put into the list one after the other. -/
theorem collectGlobalsFromSyms_eq (hfits : ∀ v ∈ vars, v.Fits) :
    collectGlobalsFromSyms syms max vars = (dataSymbols syms).foldl (showVarPush max) vars := by
  rw [collectGlobalsFromSyms, dataSymbols, List.foldl_map, List.foldl_filter]
  generalize syms.entries = entries
  induction entries generalizing vars with
  | nil => rfl
  | cons entry entries ih =>
    rw [List.foldl_cons, List.foldl_cons]
    have hstep := @pushSymbol_eq syms max vars hfits entry
    have hnext : ∀ v ∈ (if entry.isGlobalData then showVarPush max vars (syms.showVar entry)
        else vars), v.Fits := by
      split
      · exact showVarPush_fits hfits (syms.showVar_fits entry)
      · exact hfits
    exact (congrArg (fun vars => List.foldl _ vars entries) hstep).trans (ih hnext)

/-- `collect_show_vars` lists the variables, and the symbols behind them. -/
theorem collectShowVars_globals : collectShowVars .globals syms pc fp max (dumpText es) =
    (globalVars syms pc fp es ++ dataSymbols syms).foldl (showVarPush max) [] := by
  have hlist : collectShowVars .globals syms pc fp max (dumpText es) =
      collectGlobalsFromSyms syms max
        (showLoop .globals syms pc fp max {} [] (fgetsLines maxDumpLine (dumpText es))) := rfl
  rw [hlist, showLoop_seen, collectGlobalsFromSyms_eq, List.foldl_append]
  · rfl
  · exact pushes_fits (fun u hu => nomatch hu) fun v hv => (globalVars_mem hv).2

end Sources

/-! ### Addresses in the list -/

section Room

variable {max : ℕ} {xs : List ShowVar}

/-- No address is repeated in the list exactly if no variable that finds room has the address of
one that is listed. -/
theorem nodup_pushes_iff (hname : ∀ u ∈ xs, u.var.name ≠ []) :
    ((xs.foldl (showVarPush max) []).map (·.addr)).Nodup ↔
      ∀ front d back, xs = front ++ d :: back → FindsRoom max front d →
        ∀ v ∈ front.foldl (showVarPush max) [], v.addr ≠ d.addr := by
  induction xs using List.reverseRecOn with
  | nil => exact iff_of_true List.nodup_nil fun front d back h => absurd h (by simp)
  | append_singleton xs d ih =>
    have ih := ih fun u hu => hname u (List.mem_append_left _ hu)
    have hlast : (((xs ++ [d]).foldl (showVarPush max) []).map (·.addr)).Nodup ↔
        ((xs.foldl (showVarPush max) []).map (·.addr)).Nodup ∧
          (FindsRoom max xs d → ∀ v ∈ xs.foldl (showVarPush max) [], v.addr ≠ d.addr) := by
      rw [pushes_concat hname, List.map_append, List.nodup_append']
      by_cases hroom : FindsRoom max xs d
      · rw [if_pos hroom]
        simp [hroom, List.Disjoint, ShowVar.located]
      · rw [if_neg hroom]
        simp [hroom]
    rw [hlast, ih]
    constructor
    · rintro ⟨hold, hnew⟩ front e back hsplit
      rcases concat_eq_append_cons_iff.mp hsplit with ⟨rfl, rfl, -⟩ | ⟨t, -, hxs⟩
      · exact hnew
      · exact hold front e t hxs
    · intro hall
      refine ⟨fun front e back hsplit => hall front e (back ++ [d]) ?_, hall xs d [] rfl⟩
      rw [hsplit, List.append_assoc, List.cons_append]

end Room

/-! ### Each object once -/

section Once

variable {syms : Syms} {pc fp : Addr} {max : ℕ} {es : List Entry}

/-- Different globals have different addresses. -/
def DistinctGlobals (vars : List ShowVar) : Prop :=
  ∀ u ∈ vars, ∀ v ∈ vars, u.addr = v.addr → u.var.name = v.var.name

theorem showCandidates_name {v : ShowVar} (hv : v ∈ globalVars syms pc fp es ++ dataSymbols syms) :
    v.var.name ≠ [] :=
  (List.mem_append.mp hv).elim (fun h => (globalVars_mem h).1) dataSymbols_name

/-- Behind `front` a variable finds room, and none in front that has found room is at its
address. -/
def NewAddress (max : ℕ) (front : List ShowVar) (d : ShowVar) : Prop :=
  FindsRoom max front d → ∀ before v after, front = before ++ v :: after →
    FindsRoom max before v → v.addr ≠ d.addr

/-- Among different globals with different addresses each one that finds room has a new address. -/
theorem DistinctGlobals.newAddress {front back : List ShowVar} {d : ShowVar}
    (h : DistinctGlobals (front ++ d :: back)) : NewAddress max front d := by
  rintro ⟨hnew, -⟩ before v after rfl - haddr
  have hv : v ∈ before ++ v :: after := List.mem_append_right _ List.mem_cons_self
  refine hnew (List.mem_map.mpr ⟨v, hv, ?_⟩)
  exact h v (List.mem_append_left _ hv) d (List.mem_append_right _ List.mem_cons_self) haddr

end Once

/-! ### One global -/

/-- A compilation unit with one global, an `int` at `0x3000`. -/
def oneGlobal (name : CStr) : List Entry :=
  (Dies.node ⟨11, .compileUnit, [.name "a.c".toList]⟩
    (.leaf ⟨42, .var, [.name name, .type 60 "int".toList, .addr 0x3000]⟩ .nil)
    61 .nil).entries 0

/-- The symbol table with the symbol of the global, which has an underscore in front. -/
def globalSymbol (name : CStr) : Syms where
  entries := [⟨0x3000, 'D', '_' :: name⟩]

end Debugger
