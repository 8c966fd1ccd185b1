import BasiliskII.Prefs.Stream
import BasiliskII.Library.Compaction

/-!
# Command line options

`PrefsInit` of prefs.cpp, behind the defaults and the settings file: the
options of the form `--keyword` override the preferences, and are taken out of
the argument vector together with their values.
-/
namespace BasiliskII.Prefs

open Compaction

def dash : UInt8 := 45

/-- `argc` and `argv`; a null pointer is `none`. -/
abbrev Args := Prefixed CString

/-- The keyword of an option of the form `--keyword`. -/
def optionKeyword (option : CString) : Option CString :=
  if option.length < 3 ∨ option.getD 0 0 ≠ dash ∨ option.getD 1 0 ≠ dash then none
  else some (option.drop 2)

/-- The keyword of the option and its descriptor, if there is one. -/
def optionDesc (option : CString) : Option (CString × PrefsDesc) :=
  (optionKeyword option).bind fun keyword =>
    (findPrefsDesc keyword).map fun d => (keyword, d)

/-- Add or replace the prefs item; a boolean that is none is only complained about. -/
def optionCall (keyword : CString) (d : PrefsDesc) (value : CString) : Option Call :=
  match d.type with
  | .string =>
    some (if d.multiple then .addString keyword value else .replaceString keyword value 0)
  | .boolean =>
    if value = ascii "true" ∨ value = ascii "on" ∨ value = ascii "yes" then
      some (.replaceBool keyword true)
    else if value = ascii "false" ∨ value = ascii "off" ∨ value = ascii "no" then
      some (.replaceBool keyword false)
    else none
  | .int32 => some (.replaceInt32 keyword (BitVec.ofInt 32 (atol value)))
  | .any => none

/-- The store after the call, if there is one. -/
def applyCall (st : Store) (c : Option Call) : Store := c.elim st fun c => (call st c).1

/-- The loop that overrides prefs with command line options; `none` where it follows a null
pointer. -/
def overridePrefs (argc : Nat) :
    Nat → Nat → Store × List (Option CString) → Option (Store × List (Option CString))
  | 0, _, s => some s
  | fuel + 1, i, (st, argv) =>
    if i < argc then
      (argv.getD i none).bind fun option =>
        match optionDesc option with
        | none => overridePrefs argc fuel (i + 1) (st, argv)
        | some (keyword, d) =>
          let argv := argv.set i none
          -- Get value
          if argc ≤ i + 1 then overridePrefs argc fuel (i + 2) (st, argv)
          else
            (argv.getD (i + 1) none).bind fun value =>
              overridePrefs argc fuel (i + 2)
                (applyCall st (optionCall keyword d value), argv.set (i + 1) none)
    else some (st, argv)

/-- The loops that remove processed arguments. -/
def removeProcessed (args : Args) : Args := squeeze args.count 1 args

/-- `PrefsInit` from the preferences that the defaults and the settings file give. -/
def prefsInit (loaded : Store) (args : Args) : Option (Store × Args) :=
  (overridePrefs args.count args.count 1 (loaded, args.cells)).map fun (st, argv) =>
    (st, removeProcessed ⟨args.count, argv⟩)

/-- The argument vector of a program started under `name`; a null pointer and whatever else
lies behind the arguments follow. -/
def commandLine (name : CString) (args : List CString) (behind : List (Option CString)) : Args :=
  ⟨args.length + 1, some name :: args.map some ++ behind⟩

/-- Whether the argument at a position is taken as the `--keyword` of a described preference: it
is one, and not the value of the option before it. -/
def isOptionAt (args : List CString) : Nat → Bool
  | 0 => (optionDesc (args.getD 0 [])).isSome
  | i + 1 => (optionDesc (args.getD (i + 1) [])).isSome && !isOptionAt args i

/-- Taken as an option or as the value of one. -/
def consumed (args : List CString) : Nat → Bool
  | 0 => isOptionAt args 0
  | i + 1 => isOptionAt args (i + 1) || isOptionAt args i

/-- The arguments that are left, in their order. -/
def unconsumed (args : List CString) : List CString :=
  (args.zipIdx.filter fun (_, i) => !consumed args i).map Prod.fst

/-- The calls the options make, in their order. -/
def overrides : List CString → List (Option Call)
  | [] => []
  | [_] => []
  | option :: value :: args =>
    match optionDesc option with
    | none => overrides (value :: args)
    | some (keyword, d) => optionCall keyword d value :: overrides args

/-- The arguments as the first loop leaves them. -/
def marked : List CString → List (Option CString)
  | [] => []
  | [option] => [if (optionDesc option).isSome then none else some option]
  | option :: value :: args =>
    if (optionDesc option).isSome then none :: none :: marked args
    else some option :: marked (value :: args)

variable (args : List CString)

theorem length_marked : (marked args).length = args.length := by
  induction args using marked.induct with
  | case1 => rfl
  | case2 option => simp [marked]
  | case3 option value args described ih => simp [marked, described, ih]
  | case4 option value args other ih => simp [marked, other, ih]

theorem overridePrefs_done {argc i : Nat} (done : argc ≤ i) (fuel : Nat)
    (s : Store × List (Option CString)) : overridePrefs argc fuel i s = some s := by
  cases fuel with
  | zero => rfl
  | succ fuel => rw [overridePrefs, if_neg (by omega)]

-- One argument of the first loop, with `front` the part of the vector it has passed.

theorem overridePrefs_other {argc fuel : Nat} {st : Store} {front tail : List (Option CString)}
    {option : CString} (more : front.length < argc) (other : optionDesc option = none) :
    overridePrefs argc (fuel + 1) front.length (st, front ++ some option :: tail) =
      overridePrefs argc fuel (front ++ [some option]).length
        (st, (front ++ [some option]) ++ tail) := by
  rw [overridePrefs, if_pos more]
  simp [other]

theorem overridePrefs_option {argc fuel : Nat} {st : Store} {front tail : List (Option CString)}
    {option value keyword : CString} {d : PrefsDesc} (more : front.length + 1 < argc)
    (found : optionDesc option = some (keyword, d)) :
    overridePrefs argc (fuel + 1) front.length
        (st, front ++ some option :: some value :: tail) =
      overridePrefs argc fuel (front ++ [none, none]).length
        (applyCall st (optionCall keyword d value), (front ++ [none, none]) ++ tail) := by
  rw [overridePrefs, if_pos (Nat.lt_of_succ_lt more)]
  have valued : ¬ argc ≤ front.length + 1 := Nat.not_le.mpr more
  have nulled : (front ++ some option :: some value :: tail).set front.length none =
      (front ++ [none]) ++ some value :: tail := by simp
  simp [found, valued, nulled]

/-- The first loop over the arguments behind `front`. -/
theorem overridePrefs_eq (st : Store) (front behind : List (Option CString)) (fuel : Nat)
    (enough : args.length ≤ fuel) :
    overridePrefs (front.length + args.length) fuel front.length
        (st, front ++ (args.map some ++ behind)) =
      some ((overrides args).foldl applyCall st, front ++ (marked args ++ behind)) := by
  induction args using marked.induct generalizing st front fuel with
  | case1 => exact overridePrefs_done (Nat.le_refl _) fuel _
  | case2 option =>
    obtain ⟨fuel, rfl⟩ := Nat.exists_eq_add_one_of_ne_zero (Nat.ne_of_gt enough)
    cases described : optionDesc option with
    | none => simp [overridePrefs, overridePrefs_done, overrides, marked, described]
    | some desc => simp [overridePrefs, overridePrefs_done, overrides, marked, described]
  | case3 option value args described ih =>
    obtain ⟨⟨keyword, d⟩, found⟩ := Option.isSome_iff_exists.mp described
    obtain ⟨fuel, rfl⟩ := Nat.exists_eq_add_one_of_ne_zero (Nat.ne_of_gt (Nat.zero_lt_of_lt enough))
    have later := ih (applyCall st (optionCall keyword d value)) (front ++ [none, none]) fuel
      (Nat.le_of_succ_le (Nat.le_of_succ_le_succ enough))
    have argc : (front ++ [none, none]).length + args.length =
        front.length + (option :: value :: args).length := by
      simp only [List.length_append, List.length_cons, List.length_nil]
      omega
    rw [argc] at later
    rw [List.map_cons, List.map_cons, List.cons_append, List.cons_append,
      overridePrefs_option (by simp) found, later]
    simp [overrides, marked, found]
  | case4 option value args other ih =>
    have other : optionDesc option = none := by simpa using other
    obtain ⟨fuel, rfl⟩ := Nat.exists_eq_add_one_of_ne_zero (Nat.ne_of_gt (Nat.zero_lt_of_lt enough))
    have later := ih st (front ++ [some option]) fuel (Nat.le_of_succ_le_succ enough)
    have argc : (front ++ [some option]).length + (value :: args).length =
        front.length + (option :: value :: args).length := by
      simp only [List.length_append, List.length_cons, List.length_nil]
      omega
    rw [argc] at later
    rw [List.map_cons, List.cons_append, overridePrefs_other (by simp) other, later]
    simp [overrides, marked, other]

-- The positions behind an argument that is no option, and behind an option and its value.

theorem isOptionAt_behind_other {option : CString} (other : optionDesc option = none)
    (args : List CString) (i : Nat) :
    isOptionAt (option :: args) (i + 1) = isOptionAt args i := by
  induction i with
  | zero => simp [isOptionAt, other]
  | succ i ih =>
    rw [isOptionAt, ih, isOptionAt]
    rfl

theorem isOptionAt_behind_option {option : CString} (described : (optionDesc option).isSome)
    (value : CString) (args : List CString) (i : Nat) :
    isOptionAt (option :: value :: args) (i + 2) = isOptionAt args i := by
  induction i with
  | zero => simp [isOptionAt, described]
  | succ i ih =>
    rw [isOptionAt, ih, isOptionAt]
    rfl

theorem getElem?_marked (i : Nat) :
    (marked args)[i]? = args[i]?.map fun arg => if consumed args i then none else some arg := by
  induction args using marked.induct generalizing i with
  | case1 => simp [marked]
  | case2 option =>
    cases i with
    | zero => simp [marked, consumed, isOptionAt]
    | succ i => simp [marked]
  | case3 option value args described ih =>
    match i with
    | 0 => simp [marked, consumed, isOptionAt, described]
    | 1 => simp [marked, consumed, isOptionAt, described]
    | i + 2 =>
      have shifted : consumed (option :: value :: args) (i + 2) = consumed args i := by
        cases i with
        | zero => simp [consumed, isOptionAt, described]
        | succ i => simp only [consumed, isOptionAt_behind_option described]
      simp only [marked, described, if_true, List.getElem?_cons_succ, ih, shifted]
  | case4 option value args other ih =>
    have other : optionDesc option = none := by simpa using other
    cases i with
    | zero => simp [marked, consumed, isOptionAt, other]
    | succ i =>
      have shifted : consumed (option :: value :: args) (i + 1) = consumed (value :: args) i := by
        cases i with
        | zero => simp [consumed, isOptionAt, other]
        | succ i => simp only [consumed, isOptionAt_behind_other other]
      have kept : marked (option :: value :: args) = some option :: marked (value :: args) := by
        simp [marked, other]
      rw [kept, List.getElem?_cons_succ, List.getElem?_cons_succ, ih, shifted]

theorem marked_filter : (marked args).filter Option.isSome = (unconsumed args).map some := by
  have nulled : marked args =
      args.zipIdx.map fun (arg, i) => if consumed args i then none else some arg := by
    apply List.ext_getElem?
    intro i
    simp only [getElem?_marked, List.getElem?_map, List.getElem?_zipIdx, Option.map_map,
      Nat.zero_add, Function.comp_def]
  rw [nulled, List.filter_map, unconsumed, List.map_map]
  have kept : (Option.isSome ∘ fun x : CString × Nat =>
      if consumed args x.2 then none else some x.1) = fun x => !consumed args x.2 := by
    funext x
    cases taken : consumed args x.2 <;> simp [taken]
  rw [kept]
  apply List.map_congr_left
  intro x member
  simp only [List.mem_filter, Bool.not_eq_true'] at member
  simp [member.2]

/-- After `PrefsInit` the vector holds the program's name and the arguments that were not
consumed, and `argc` counts them. -/
theorem prefsInit_compacts (loaded : Store) (name : CString) (args : List CString)
    (behind : List (Option CString)) :
    ∃ st out, prefsInit loaded (commandLine name args behind) = some (st, out) ∧
      out.count = 1 + (unconsumed args).length ∧
      out.cells.take out.count = some name :: (unconsumed args).map some ∧
      st = (overrides args).foldl applyCall loaded := by
  have looped := overridePrefs_eq args loaded [some name] behind (args.length + 1)
    (Nat.le_succ _)
  have argc : [some name].length + args.length = args.length + 1 := Nat.add_comm _ _
  rw [argc] at looped
  let s : Args := ⟨args.length + 1, [some name] ++ (marked args ++ behind)⟩
  have squeezed : Squeezed 1 s := by
    refine ⟨?_, ?_⟩
    · simp [s, length_marked]
    · intro m first _
      obtain rfl : m = 0 := Nat.lt_one_iff.mp first
      rfl
  have started : s.live = some name :: marked args := by
    simp [s, Prefixed.live, ← length_marked args]
  obtain ⟨live, inside⟩ := live_squeeze (args.length + 1) squeezed (Nat.le_add_left _ _)
  rw [started, List.filter_cons_of_pos rfl, marked_filter] at live
  refine ⟨_, removeProcessed s, ?_, ?_, live, rfl⟩
  · have overridden : overridePrefs (args.length + 1) (args.length + 1) 1
        (loaded, some name :: args.map some ++ behind) =
          some ((overrides args).foldl applyCall loaded, s.cells) := looped
    simp only [prefsInit, commandLine, overridden, Option.map_some]
    rfl
  · have counted := congrArg List.length live
    rw [Prefixed.live, List.length_take, Nat.min_eq_left inside, List.length_cons,
      List.length_map] at counted
    exact counted.trans (Nat.add_comm _ _)

end BasiliskII.Prefs
