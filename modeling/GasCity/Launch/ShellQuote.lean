import Mathlib.Data.String.Basic

/-! # Shell quoting

Arguments are joined to a command line with the quoting of a shell and split again.  Splitting a
joined line gives the arguments back, and what is appended after a blank to a line with closed
quotes is split on its own.
-/

namespace GasCity.ShellQuote

def singleQuote : Char := Char.ofNat 39

def backslash : Char := Char.ofNat 92

def metacharacters : List Char :=
  [' ', '\t', '\r', '\n', '"', singleQuote, backslash, '|', '&', ';', '$', '!', '(', ')',
    Char.ofNat 123, Char.ofNat 125, '[', ']', '<', '>', '?', '*', '~', '#', Char.ofNat 96]

/-- A single quote of the text closes the quotes, is escaped and opens them again. -/
def quote (s : String) : String :=
  .ofList (singleQuote :: (s.toList.flatMap fun c =>
    if c = singleQuote then [singleQuote, backslash, singleQuote, singleQuote] else [c])
      ++ [singleQuote])

def render (arg : String) : String :=
  if arg = "" then .ofList [singleQuote, singleQuote]
  else if arg.toList.any (· ∈ metacharacters) then quote arg
  else arg

def join (args : List String) : String :=
  " ".intercalate (args.map render)

structure Splitter where
  args : List String
  current : List Char
  inSingle : Bool
  inDouble : Bool
  escaped : Bool
  tokenActive : Bool

namespace Splitter

def rest (args : List String) : Splitter :=
  ⟨args, [], false, false, false, false⟩

def word (args : List String) (current : List Char) : Splitter :=
  ⟨args, current, false, false, false, true⟩

def flush (s : Splitter) : Splitter :=
  if s.tokenActive = true ∨ s.current ≠ [] then
    { s with args := s.args ++ [.ofList s.current], current := [], tokenActive := false }
  else s

def write (s : Splitter) (c : Char) : Splitter :=
  { s with current := s.current ++ [c], tokenActive := true }

def step (s : Splitter) (c : Char) : Splitter :=
  if s.escaped then { s.write c with escaped := false }
  else if s.inSingle then
    if c = singleQuote then { s with inSingle := false } else s.write c
  else if s.inDouble then
    if c = '"' then { s with inDouble := false }
    else if c = backslash then { s with escaped := true, tokenActive := true }
    else s.write c
  else if c = singleQuote then { s with inSingle := true, tokenActive := true }
  else if c = '"' then { s with inDouble := true, tokenActive := true }
  else if c = backslash then { s with escaped := true, tokenActive := true }
  else if c = ' ' ∨ c = '\t' ∨ c = '\n' ∨ c = '\r' then s.flush
  else s.write c

def run (s : Splitter) (text : List Char) : Splitter :=
  text.foldl step s

def finish (s : Splitter) : List String :=
  (if s.escaped then { s with current := s.current ++ [backslash] } else s).flush.args

def Bare (s : Splitter) : Prop :=
  s.inSingle = false ∧ s.inDouble = false ∧ s.escaped = false

instance (s : Splitter) : Decidable s.Bare :=
  inferInstanceAs (Decidable (_ ∧ _ ∧ _))

end Splitter

open List Splitter

def split (command : String) : List String :=
  (run (rest []) command.toList).finish

def Closed (command : String) : Prop :=
  (run (rest []) command.toList).Bare

instance (command : String) : Decidable (Closed command) :=
  inferInstanceAs (Decidable (Bare _))

namespace Splitter

variable {s : Splitter} {args : List String} {current text : List Char}

def behind (args : List String) (s : Splitter) : Splitter :=
  { s with args := args ++ s.args }

theorem flush_behind (args : List String) (s : Splitter) :
    (s.behind args).flush = s.flush.behind args := by
  unfold flush
  by_cases h : s.tokenActive = true ∨ s.current ≠ []
  · rw [if_pos h, if_pos (show (s.behind args).tokenActive = true ∨ (s.behind args).current ≠ []
      from h)]
    simp [behind]
  · rw [if_neg h, if_neg (show ¬ ((s.behind args).tokenActive = true ∨
      (s.behind args).current ≠ []) from h)]

theorem step_behind (args : List String) (s : Splitter) (c : Char) :
    (s.behind args).step c = (s.step c).behind args := by
  simp only [step, apply_ite (behind args), flush_behind]
  rfl

theorem run_behind (args : List String) (s : Splitter) (text : List Char) :
    (s.behind args).run text = (s.run text).behind args := by
  induction text generalizing s with
  | nil => rfl
  | cons c text ih =>
    change ((s.behind args).step c).run text = ((s.step c).run text).behind args
    rw [step_behind, ih]

theorem finish_behind (args : List String) (s : Splitter) :
    (s.behind args).finish = args ++ s.finish := by
  cases hesc : s.escaped with
  | true =>
    have := flush_behind args { s with current := s.current ++ [backslash] }
    simp only [finish, behind, hesc, if_true] at this ⊢
    rw [this]
  | false =>
    have := flush_behind args s
    simp only [finish, behind, hesc, Bool.false_eq_true, if_false] at this ⊢
    rw [this]

theorem run_append (s : Splitter) (text more : List Char) :
    s.run (text ++ more) = (s.run text).run more :=
  foldl_append

theorem Bare.step_blank (h : s.Bare) : s.step ' ' = rest s.finish := by
  obtain ⟨hsingle, hdouble, hesc⟩ := h
  have hflush : s.flush = rest s.finish := by
    simp only [finish, hesc, Bool.false_eq_true, if_false, flush]
    by_cases hactive : s.tokenActive = true ∨ s.current ≠ []
    · simp only [if_pos hactive, rest, hsingle, hdouble]
    · simp only [if_neg hactive, rest]
      simp only [not_or, Bool.not_eq_true, ne_eq, not_not] at hactive
      rw [← hsingle, ← hactive.2]
      cases s
      simp_all
  rw [← hflush]
  simp only [step, hesc, hsingle, hdouble]
  rfl

end Splitter

theorem Closed.run_append {command : String} (h : Closed command) (more : String) :
    run (rest []) (command ++ " " ++ more).toList =
      (run (rest []) more.toList).behind (split command) := by
  have hrest : rest (split command) = (rest []).behind (split command) := by
    simp [rest, behind]
  have hblank : (" " : String).toList = [' '] := rfl
  rw [String.toList_append, String.toList_append, Splitter.run_append, Splitter.run_append, hblank]
  change ((run (rest []) command.toList).step ' ').run more.toList = _
  rw [h.step_blank]
  change (rest (split command)).run more.toList = _
  rw [hrest, run_behind]

theorem split_append {command : String} (h : Closed command) (more : String) :
    split (command ++ " " ++ more) = split command ++ split more := by
  rw [split, h.run_append, finish_behind]
  rfl

theorem Closed.append {command more : String} (h : Closed command) (hmore : Closed more) :
    Closed (command ++ " " ++ more) := by
  unfold Closed
  rw [h.run_append]
  exact hmore

namespace Splitter

variable {args : List String} {current text : List Char}

theorem run_plain (hplain : ∀ c ∈ text, c ∉ metacharacters) :
    (word args current).run text = word args (current ++ text) := by
  induction text generalizing current with
  | nil => simp [run]
  | cons c text ih =>
    rw [forall_mem_cons] at hplain
    have hc := hplain.1
    simp only [metacharacters, mem_cons, not_or] at hc
    have hstep : (word args current).step c = word args (current ++ [c]) := by
      simp [step, word, write, hc]
    change ((word args current).step c).run text = _
    rw [hstep, ih hplain.2, append_assoc]
    rfl

def quoted (args : List String) (current : List Char) : Splitter :=
  ⟨args, current, true, false, false, true⟩

theorem run_quoted (text : List Char) :
    (quoted args current).run (text.flatMap fun c =>
      if c = singleQuote then [singleQuote, backslash, singleQuote, singleQuote] else [c]) =
    quoted args (current ++ text) := by
  induction text generalizing current with
  | nil => simp [run]
  | cons c text ih =>
    rw [flatMap_cons, run_append]
    have hstep : (quoted args current).run (if c = singleQuote then
        [singleQuote, backslash, singleQuote, singleQuote] else [c]) =
        quoted args (current ++ [c]) := by
      split_ifs with hc
      · subst hc
        rfl
      · simp [run, step, quoted, write, hc]
    rw [hstep, ih, append_assoc]
    rfl

theorem run_render (args : List String) (arg : String) :
    (rest args).run (render arg).toList = word args arg.toList := by
  unfold render
  split_ifs with hempty hmeta
  · subst hempty
    rfl
  · rw [quote, String.toList_ofList]
    change ((quoted args []).run (_ ++ _)) = _
    rw [run_append, run_quoted]
    rfl
  · cases hlist : arg.toList with
    | nil => exact absurd (String.toList_eq_nil_iff.mp hlist) hempty
    | cons c text =>
      have hplain : ∀ x ∈ c :: text, x ∉ metacharacters := by
        intro x hx hm
        apply hmeta
        rw [hlist, any_eq_true]
        exact ⟨x, hx, decide_eq_true hm⟩
      rw [forall_mem_cons] at hplain
      have hc := hplain.1
      simp only [metacharacters, mem_cons, not_or] at hc
      have hstep : (rest args).step c = word args [c] := by
        simp [step, rest, word, write, hc]
      change ((rest args).step c).run text = _
      rw [hstep, run_plain hplain.2]
      rfl

theorem run_join (args more : List String) :
    ((rest args).run (join more).toList).Bare ∧
      ((rest args).run (join more).toList).finish = args ++ more := by
  induction more generalizing args with
  | nil => exact ⟨⟨rfl, rfl, rfl⟩, (append_nil args).symm⟩
  | cons arg more ih =>
    have hword : (word args arg.toList).finish = args ++ [arg] := by
      simp [finish, flush, word]
    cases more with
    | nil =>
      have hjoin : join [arg] = render arg := by simp [join]
      rw [hjoin, run_render]
      exact ⟨⟨rfl, rfl, rfl⟩, hword⟩
    | cons next more =>
      have hjoin : join (arg :: next :: more) = render arg ++ " " ++ join (next :: more) := by
        simp [join, String.intercalate_cons_cons]
      have hblank : (" " : String).toList = [' '] := rfl
      rw [hjoin, String.toList_append, String.toList_append, run_append, run_append, run_render,
        hblank]
      change (((word args arg.toList).step ' ').run _).Bare ∧
        (((word args arg.toList).step ' ').run _).finish = _
      rw [Bare.step_blank ⟨rfl, rfl, rfl⟩, hword]
      have := ih (args ++ [arg])
      rwa [append_assoc] at this

end Splitter

/-- A joined line closes its quotes and reads as the arguments. -/
theorem join_spec (args : List String) : Closed (join args) ∧ split (join args) = args :=
  run_join [] args

/-- Splitting a joined line gives the arguments back, whatever characters they have. -/
theorem split_join (args : List String) : split (join args) = args :=
  (join_spec args).2

/-- Joined lines with blanks between them read as all their arguments in order. -/
theorem split_joined_lines (lines : List (List String)) :
    Closed (" ".intercalate (lines.map join)) ∧
      split (" ".intercalate (lines.map join)) = lines.flatten := by
  induction lines with
  | nil => decide
  | cons args lines ih =>
    obtain ⟨hclosed, hsplit⟩ := join_spec args
    cases lines with
    | nil => simpa using join_spec args
    | cons next lines =>
      rw [map_cons, map_cons, String.intercalate_cons_cons, ← map_cons]
      refine ⟨hclosed.append ih.1, ?_⟩
      rw [split_append hclosed, hsplit, ih.2]
      rfl

end GasCity.ShellQuote
