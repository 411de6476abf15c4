import Flowchart.Diagram
import Flowchart.Proofs.Identifier
import Flowchart.Proofs.Text

/-!
# The header of a diagram

The header is a comment of a single line, whatever the settings say. The name of the renderer may be
any text; JSON strings are written in printable ASCII (`Json.isPrintableText_writeString`), so it
cannot end the line.

## Main results

* `isPrintableText_writeString`: a JSON string is printable, whatever it says.
* `headerLine_one_line`, `headerLine_comment`: the header is one line, and a comment.
-/

namespace Flowchart

namespace Json

/-- The printable characters of ASCII. -/
def isPrintable (c : Char) : Bool := 0x20 ≤ c.toNat && c.toNat < 0x7F

/-- No printable character ends a line. -/
theorem isLineEnd_of_isPrintable {c : Char} (h : isPrintable c = true) :
    Text.isLineEnd c = false := by
  simp only [isPrintable, Bool.and_eq_true, decide_eq_true_eq] at h
  rw [Bool.eq_false_iff]
  simp only [Text.isLineEnd, ne_eq, Bool.or_eq_true, Bool.and_eq_true, decide_eq_true_eq,
    beq_iff_eq]
  omega

/-- A hexadecimal digit is printable. -/
theorem isPrintable_digitChar (n : Nat) : isPrintable (Nat.digitChar (n % 16)) = true := by
  have hdigits : ∀ k < 16, isPrintable (Nat.digitChar k) = true := by decide
  exact hdigits _ (Nat.mod_lt n (by omega))

/-- So is a number in such digits. -/
theorem isPrintable_of_mem_hex {c : Char} {width n : Nat} (h : c ∈ Text.Quoted.hex width n) :
    isPrintable c = true := by
  induction width generalizing n with
  | zero => exact absurd h List.not_mem_nil
  | succ width ih =>
      rw [Text.Quoted.hex, List.mem_append] at h
      rcases h with h | h
      · exact ih h
      · rw [List.mem_singleton.mp h]
        exact isPrintable_digitChar n

/-- So is a unit that is escaped. -/
theorem isPrintable_of_mem_escapeUnit {c : Char} {u : Nat} (h : c ∈ escapeUnit u) :
    isPrintable c = true := by
  rw [escapeUnit, List.mem_cons, List.mem_cons] at h
  rcases h with rfl | rfl | h
  · decide
  · decide
  · exact isPrintable_of_mem_hex h

/-- Every character is written in printable ones. -/
theorem isPrintable_of_mem_escapeChar {c d : Char} (h : d ∈ escapeChar c) :
    isPrintable d = true := by
  have hpair : ∀ {e : Char}, isPrintable e = true → d ∈ ['\\', e] → isPrintable d = true := by
    intro e he hd
    rcases List.mem_cons.mp hd with rfl | hd
    · decide
    · rw [List.mem_singleton.mp hd]
      exact he
  simp only [escapeChar] at h
  split_ifs at h with hquote hn hr ht hb hf hprintable hsmall
  · refine hpair ?_ h
    rcases hquote with rfl | rfl <;> decide
  · exact hpair (by decide) h
  · exact hpair (by decide) h
  · exact hpair (by decide) h
  · exact hpair (by decide) h
  · exact hpair (by decide) h
  · rw [List.mem_singleton.mp h]
    simpa [isPrintable] using hprintable
  · exact isPrintable_of_mem_escapeUnit h
  · rcases List.mem_append.mp h with h | h
    · exact isPrintable_of_mem_escapeUnit h
    · exact isPrintable_of_mem_escapeUnit h

/-- A text of printable characters. -/
def IsPrintableText (s : String) : Prop := ∀ c ∈ s.toList, isPrintable c = true

instance (s : String) : Decidable (IsPrintableText s) :=
  decidable_of_iff (s.toList.all isPrintable = true) List.all_eq_true

/-- Printable texts in a row are printable. -/
theorem IsPrintableText.append {s t : String} (hs : IsPrintableText s) (ht : IsPrintableText t) :
    IsPrintableText (s ++ t) := by
  intro c hc
  rw [String.toList_append, List.mem_append] at hc
  exact hc.elim (hs c) (ht c)

/-- A JSON string is written in printable characters. -/
theorem isPrintableText_writeString (s : String) : IsPrintableText (writeString s) := by
  intro c h
  rw [writeString, String.toList_ofList, List.mem_append, List.mem_cons, List.mem_flatMap,
    List.mem_singleton] at h
  rcases h with (rfl | ⟨d, -, h⟩) | rfl
  · decide
  · exact isPrintable_of_mem_escapeChar h
  · decide

/-- So is a whole number. -/
theorem isPrintableText_toString (n : Int) : IsPrintableText (toString n) := by
  intro c h
  obtain ⟨hlow, hhigh⟩ := bounds_of_isIdChar (isIdChar_of_mem_toString h)
  simp only [isPrintable, Bool.and_eq_true, decide_eq_true_eq]
  omega

/-- So is an object, if its values are. -/
theorem isPrintableText_obj {fields : List (String × Json)}
    (h : ∀ f ∈ fields, IsPrintableText (write tight f.2)) :
    IsPrintableText (write tight (.obj fields)) := by
  have hfields : IsPrintableText (writeFields tight fields) := by
    induction fields with
    | nil =>
        intro c hc
        exact absurd hc List.not_mem_nil
    | cons f rest ih =>
        have hcolon : IsPrintableText tight.field := by decide
        have hfirst := ((isPrintableText_writeString f.1).append hcolon).append
          (h f List.mem_cons_self)
        cases rest with
        | nil => exact hfirst
        | cons f' rest =>
            have hcomma : IsPrintableText tight.item := by decide
            exact (hfirst.append hcomma).append (ih fun g hg => h g (List.mem_cons_of_mem f hg))
  have hopening : IsPrintableText "\x7b" := by decide
  have hclosing : IsPrintableText "\x7d" := by decide
  rw [write]
  exact (hopening.append hfields).append hclosing

end Json

namespace Diagram

/-- The header without the line end. -/
def headerLine (s : Settings) : String :=
  "%%\x7binit: " ++ (configuration s).write Json.tight ++ " \x7d%%"

/-- The header is its line and a line feed. -/
theorem header_eq (s : Settings) : header s = headerLine s ++ "\n" := by
  rw [headerLine, String.append_assoc]
  rfl

/-- The configuration is written in printable characters. -/
theorem isPrintableText_configuration (s : Settings) :
    Json.IsPrintableText ((configuration s).write Json.tight) := by
  refine Json.isPrintableText_obj fun f hf => ?_
  simp only [List.mem_cons, List.not_mem_nil, or_false] at hf
  rcases hf with rfl | rfl | rfl
  · refine Json.isPrintableText_obj fun f hf => ?_
    simp only [List.mem_cons, List.not_mem_nil, or_false] at hf
    rcases hf with rfl | rfl | rfl
    · exact Json.isPrintableText_writeString s.renderer
    · exact Json.isPrintableText_toString s.nodeSpacing
    · exact Json.isPrintableText_toString s.rankSpacing
  · exact Json.isPrintableText_toString s.maxTextSize
  · refine Json.isPrintableText_obj fun f hf => ?_
    simp only [List.mem_cons, List.not_mem_nil, or_false] at hf
    rcases hf with rfl | rfl | rfl | rfl <;> exact Json.isPrintableText_writeString "transparent"

/-- The header is a single line. -/
theorem headerLine_one_line (s : Settings) :
    ∀ c ∈ (headerLine s).toList, Text.isLineEnd c = false := by
  have hbefore : Json.IsPrintableText "%%\x7binit: " := by decide
  have hafter : Json.IsPrintableText " \x7d%%" := by decide
  exact fun c hc => Json.isLineEnd_of_isPrintable
    (((hbefore.append (isPrintableText_configuration s)).append hafter) c hc)

/-- The header is a comment. -/
theorem headerLine_comment (s : Settings) :
    "%%".toList.isPrefixOf (headerLine s).toList = true := by
  simp [headerLine, List.isPrefixOf]

/-- The header ends in a percent sign. -/
theorem getLast?_headerLine (s : Settings) : (headerLine s).toList.getLast? = some '%' := by
  have hlast : " \x7d%%".toList.getLast? = some '%' := by decide
  rw [headerLine, String.toList_append, List.getLast?_append, hlast, Option.some_or]

end Diagram

end Flowchart
