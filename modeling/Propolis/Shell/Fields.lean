import Mathlib.Data.List.Basic

/-!
# Splitting an expansion into fields

The loop decides at each character whether a field ends there.  The rule it is held to first takes
out the white space that separates nothing: at the ends of the text, and next to a delimiter that
is not white space.  Whether white space is such depends on what follows it, which the loop does
not look at.
-/

namespace Propolis.Shell

/-- A piece of expansion output; only an unquoted expansion's text splits. -/
inductive Seg
  | text (text : List Char) (quoted split : Bool)
  | fieldBreak

/-- One word being built: each character with whether it was quoted. -/
structure Field where
  chars : List (Char × Bool) := []
  keep : Bool := false

/-- The locals of the loop. -/
structure Splitter where
  fields : List Field := []
  current : Field := {}
  started : Bool := false

variable (ifs : List Char)

def isIfs (c : Char) : Bool := ifs.contains c

def isIfsSpace (c : Char) : Bool := ifs.contains c && (c == ' ' || c == '\t' || c == '\n')

namespace Splitter

def push (splitter : Splitter) : Splitter := ⟨splitter.fields ++ [splitter.current], {}, false⟩

def char (splitter : Splitter) (c : Char) : Splitter :=
  if isIfsSpace ifs c then
    if splitter.started then splitter.push else splitter
  else if isIfs ifs c then
    push { splitter with current.keep := true }
  else
    { splitter with current.chars := splitter.current.chars ++ [(c, false)], started := true }

def seg (splitter : Splitter) : Seg → Splitter
  | .fieldBreak => if splitter.started then splitter.push else splitter
  | .text text quoted false =>
      { splitter with
        current := ⟨splitter.current.chars ++ text.map (·, quoted), splitter.current.keep || quoted⟩
        started := splitter.started || quoted || !text.isEmpty }
  | .text text _ true => text.foldl (char ifs) splitter

def finish (splitter : Splitter) : List Field :=
  if splitter.started then splitter.fields ++ [splitter.current] else splitter.fields

end Splitter

def buildFields (segs : List Seg) : List Field := (segs.foldl (Splitter.seg ifs) {}).finish

def Field.counts (field : Field) : Bool := !field.chars.isEmpty || field.keep

/-- The words `expand_fields` takes from the fields: it skips an empty field that nothing keeps. -/
def wordsOf (fields : List Field) : List (List (Char × Bool)) :=
  (fields.filter Field.counts).map Field.chars

/-- What field splitting sees: white space and the other characters of `IFS` in the text of an
unquoted expansion, and anything else as text of a field.  Quoted text, also when empty, holds a
field open. -/
inductive Mark
  | text (char : Char × Bool)
  | hold
  | space
  | delimiter
  | fieldBreak
  deriving DecidableEq

def Mark.isText : Mark → Bool
  | .text _ | .hold => true
  | _ => false

def markOf (c : Char) : Mark :=
  if isIfsSpace ifs c then .space else if isIfs ifs c then .delimiter else .text (c, false)

def Seg.marks : Seg → List Mark
  | .fieldBreak => [.fieldBreak]
  | .text chars quoted false =>
      chars.map (fun c => .text (c, quoted)) ++ if quoted then [.hold] else []
  | .text chars _ true => chars.map (markOf ifs)

def marksOf (segs : List Seg) : List Mark := segs.flatMap (Seg.marks ifs)

/-- The mark after the white space at hand. -/
def next (marks : List Mark) : Option Mark := marks.find? (· ≠ .space)

/-- Leaves one white space of each run that stands between texts and no other white space.  The
flag says whether text came right before. -/
def squeeze (afterText : Bool) : List Mark → List Mark
  | [] => []
  | .space :: rest =>
      if afterText && (next rest).any Mark.isText then .space :: squeeze false rest
      else squeeze false rest
  | mark :: rest => mark :: squeeze mark.isText rest

/-- Every delimiter ends a field, and what is left at the end is one if it holds anything. -/
def cut (current : Option (List (Char × Bool))) : List Mark → List (List (Char × Bool))
  | [] => current.toList
  | .text char :: rest => cut (some (current.getD [] ++ [char])) rest
  | .hold :: rest => cut (some (current.getD [])) rest
  | .space :: rest | .delimiter :: rest => current.getD [] :: cut none rest
  | .fieldBreak :: rest => current.toList ++ cut none rest

/-- The fields by the shell's rule. -/
def posixFields (segs : List Seg) : List (List (Char × Bool)) :=
  cut none (squeeze false (marksOf ifs segs))

/-- How many delimiters that are not white space come after text and white space. -/
def detached (afterText : Bool) : List Mark → ℕ
  | [] => 0
  | .space :: rest =>
      (if afterText ∧ next rest = some .delimiter then 1 else 0) + detached false rest
  | mark :: rest => detached mark.isText rest

namespace Splitter

/-- The loop, a mark at a time. -/
def mark (splitter : Splitter) : Mark → Splitter
  | .text char =>
      { splitter with current.chars := splitter.current.chars ++ [char], started := true }
  | .hold => { splitter with current.keep := true, started := true }
  | .space | .fieldBreak => if splitter.started then splitter.push else splitter
  | .delimiter => push { splitter with current.keep := true }

variable {ifs} {splitter : Splitter}

theorem char_eq_mark (c : Char) : splitter.char ifs c = splitter.mark (markOf ifs c) := by
  unfold char markOf
  split
  · rfl
  · split <;> rfl

theorem foldl_text (text : List Char) (quoted : Bool) :
    (text.map fun c => Mark.text (c, quoted)).foldl mark splitter =
      { splitter with
        current.chars := splitter.current.chars ++ text.map (·, quoted)
        started := splitter.started || !text.isEmpty } := by
  induction text generalizing splitter with
  | nil => simp
  | cons c rest ih => simp [ih, mark]

theorem seg_eq_marks (seg : Seg) : splitter.seg ifs seg = (seg.marks ifs).foldl mark splitter := by
  match seg with
  | .fieldBreak => rfl
  | .text text quoted false =>
    cases quoted <;> simp [Splitter.seg, Seg.marks, foldl_text, mark]
  | .text text _ true =>
    simp only [Splitter.seg, Seg.marks, List.foldl_map]
    congr
    funext splitter c
    exact char_eq_mark c

theorem foldl_seg (segs : List Seg) :
    segs.foldl (seg ifs) splitter = (marksOf ifs segs).foldl mark splitter := by
  induction segs generalizing splitter with
  | nil => rfl
  | cons seg rest ih => simp [ih, seg_eq_marks, marksOf]

/-- The field being built. -/
def pending (splitter : Splitter) : Option (List (Char × Bool)) :=
  if splitter.started then some splitter.current.chars else none

end Splitter

theorem Splitter.counts_mark {splitter : Splitter} (mark : Mark)
    (all : ∀ field ∈ splitter.fields, field.counts = true)
    (current : splitter.started = true → splitter.current.counts = true) :
    (∀ field ∈ (splitter.mark mark).fields, field.counts = true) ∧
      ((splitter.mark mark).started = true → (splitter.mark mark).current.counts = true) := by
  cases mark with
  | text | hold => exact ⟨all, fun _ => by simp [Splitter.mark, Field.counts]⟩
  | delimiter => exact ⟨List.forall_mem_append.mpr ⟨all, by simp [Field.counts]⟩, nofun⟩
  | space | fieldBreak =>
    simp only [Splitter.mark]
    split
    case isTrue started =>
      exact ⟨List.forall_mem_append.mpr ⟨all, by simpa using current started⟩, nofun⟩
    case isFalse => exact ⟨all, current⟩

/-- Every field of the loop counts as a word. -/
theorem Splitter.counts_finish {splitter : Splitter} {marks : List Mark}
    (all : ∀ field ∈ splitter.fields, field.counts = true)
    (current : splitter.started = true → splitter.current.counts = true) :
    ∀ field ∈ (marks.foldl mark splitter).finish, field.counts = true := by
  induction marks generalizing splitter with
  | nil =>
    rw [List.foldl_nil, finish]
    cases started : splitter.started with
    | false => exact all
    | true => exact List.forall_mem_append.mpr ⟨all, by simpa using current started⟩
  | cons first rest ih =>
    rcases counts_mark first all current with ⟨fields, last⟩
    exact ih fields last

/-- White space that no text follows may as well end the field, unless a delimiter follows it:
that then ends another one. -/
theorem cut_squeeze_of_end {rest : List Mark} (chars : List (Char × Bool))
    (noText : (next rest).any Mark.isText = false) :
    (cut (some chars) (squeeze false rest)).Sublist (chars :: cut none (squeeze false rest)) ∧
      (cut none (squeeze false rest)).length + 1 =
        (cut (some chars) (squeeze false rest)).length +
          if next rest = some .delimiter then 1 else 0 := by
  induction rest with
  | nil => exact ⟨.refl _, rfl⟩
  | cons mark rest ih =>
    cases mark with
    | space => exact ih noText
    | fieldBreak => exact ⟨.refl _, rfl⟩
    | text | hold => simp [next, Mark.isText] at noText
    | delimiter => simp [next, squeeze, cut]

/-- From any point on, the loop builds the fields of the rule, and one more for each detached
delimiter. -/
theorem Splitter.finish_foldl {splitter : Splitter} (marks : List Mark)
    (empty : splitter.started = false → splitter.current.chars = []) :
    (splitter.fields.map Field.chars ++
        cut splitter.pending (squeeze splitter.started marks)).Sublist
      ((marks.foldl mark splitter).finish.map Field.chars) ∧
    (marks.foldl mark splitter).finish.length = splitter.fields.length +
      (cut splitter.pending (squeeze splitter.started marks)).length +
        detached splitter.started marks := by
  induction marks generalizing splitter with
  | nil =>
    cases started : splitter.started <;>
      simp [finish, pending, squeeze, cut, started, detached]
  | cons first rest ih =>
    obtain ⟨fields, current, started⟩ := splitter
    have later := @ih (mark ⟨fields, current, started⟩ first)
    rw [List.foldl_cons]
    cases first with
    | text | hold =>
      cases started <;> simp_all [mark, pending, squeeze, cut, Mark.isText, detached]
    | delimiter | fieldBreak =>
      cases started <;>
        simp_all [mark, pending, push, squeeze, cut, Mark.isText, detached, Nat.add_assoc,
          Nat.add_comm]
    | space =>
      cases started with
      | false => simpa [mark, pending, squeeze, detached] using later empty
      | true =>
        rcases later fun _ => rfl with ⟨part, count⟩
        generalize (List.foldl mark _ rest).finish = built at part count ⊢
        simp only [mark, push, pending, if_true, Bool.false_eq_true, if_false, List.map_append,
          List.append_assoc, List.length_append, List.length_singleton] at part count
        simp only [pending, squeeze, detached, Bool.true_and, true_and, if_true]
        by_cases follows : (next rest).any Mark.isText
        · have noDelimiter : next rest ≠ some .delimiter := by
            rintro found
            simp [found, Mark.isText] at follows
          rw [if_pos follows, if_neg noDelimiter]
          exact ⟨part, by simp only [cut, List.length_cons]; omega⟩
        · rw [if_neg follows]
          rcases cut_squeeze_of_end current.chars (Bool.not_eq_true _ ▸ follows) with ⟨fewer, ends⟩
          exact ⟨(List.Sublist.append_left fewer _).trans part, by omega⟩

/-- The words are those of the rule exactly where no white space stands between text and a delimiter
that is not white space. -/
theorem build_fields_posix (segs : List Seg) :
    wordsOf (buildFields ifs segs) = posixFields ifs segs ↔
      detached false (marksOf ifs segs) = 0 := by
  rw [buildFields, Splitter.foldl_seg, posixFields, wordsOf,
    List.filter_eq_self.mpr (Splitter.counts_finish (List.forall_mem_nil _) (by simp))]
  rcases @Splitter.finish_foldl {} (marksOf ifs segs) fun _ => rfl with ⟨part, count⟩
  change _ = 0 + (cut none (squeeze false _)).length + detached false _ at count
  constructor
  · intro same
    have lengths := congrArg List.length same
    rw [List.length_map] at lengths
    omega
  · intro attached
    apply (part.eq_of_length _).symm
    change (cut none (squeeze false _)).length = _
    rw [List.length_map]
    omega

/-- Text with both kinds of delimiter, next to quoted text. -/
def joined : List Seg := [.text " a: b".toList false true, .text " c".toList true false]

theorem build_fields_posix_joined :
    wordsOf (buildFields " :".toList joined) = posixFields " :".toList joined ∧
    posixFields " :".toList joined =
      [[('a', false)], [('b', false), (' ', true), ('c', true)]] :=
  ⟨(build_fields_posix _ joined).mpr (by decide), by decide⟩

/-- The white space ends the first field, and the colon then ends one with nothing in it. -/
theorem space_before_delimiter_extra_field :
    wordsOf (buildFields " :".toList [.text "a : b".toList false true]) =
      [[('a', false)], [], [('b', false)]] ∧
    posixFields " :".toList [.text "a : b".toList false true] =
      [[('a', false)], [('b', false)]] := by
  decide

end Propolis.Shell
