import Stencil.Error.Basic
import Stencil.Proofs.Clean.Text

/-!
# Faults without escapes

A fault quotes texts that come from a template, a value or a host, and says the rest in its own
words. If there is no escape in what it quotes, there is none in its message or its suggestion.
-/

namespace Stencil

open Text

/-! ## What a fault quotes -/

/-- A character that no lexeme starts with is shown in quotes, which let no escape through. -/
def ExprFault.quoted : ExprFault → List String
  | .unexpected lexeme => [lexeme]
  | .expected wanted found => [wanted, found]
  | .noAttribute found => [found]
  | _ => []

def SyntaxFault.quoted : SyntaxFault → List String
  | .unknownTag name closest => name :: closest.toList
  | .expression fault markup => markup :: fault.quoted
  | .condition clause markup => [clause, markup]
  | .inclusion tag markup => [tag, markup]
  | .noCondition => []
  | .invalidTag text | .unexpectedTag text | .assign text | .loop text => [text]
  | .arguments tag => [tag]
  | .unterminated block => [block]
  | .stated message suggestion => message :: suggestion.toList

def RuntimeFault.quoted : RuntimeFault → List String
  | .bounds start stop => [start, stop]
  | .loopArgument text => [text]
  | .reading key typeName message => [key, typeName, message]
  | .comparison left right => [left, right]
  | .missingName => []
  | .nameType typeName => [typeName]
  | .depth _ name => [name]
  | .stated _ message suggestion => message :: suggestion.toList

def LoadError.quoted : LoadError → List String
  | .unknown name closest available => name :: (closest.toList ++ available)
  | .absent name directories => name :: directories
  | .noLoader name | .declined name | .nowhere name _ | .outside name => [name]
  | .stated message => [message]

def ExprFault.Clean (fault : ExprFault) : Prop := ∀ text ∈ fault.quoted, Text.Clean text

def SyntaxFault.Clean (fault : SyntaxFault) : Prop := ∀ text ∈ fault.quoted, Text.Clean text

def RuntimeFault.Clean (fault : RuntimeFault) : Prop := ∀ text ∈ fault.quoted, Text.Clean text

def LoadError.Clean (e : LoadError) : Prop := ∀ text ∈ e.quoted, Text.Clean text

theorem RuntimeFault.clean_missingName : RuntimeFault.missingName.Clean := List.forall_mem_nil _

/-! ## Their messages -/

theorem ExprFault.Clean.message {fault : ExprFault} (h : fault.Clean) :
    Text.Clean fault.message := by
  unfold ExprFault.message
  cases fault with
  | unexpectedEnd | noDots => decide
  | unexpectedChar c =>
    have hc := clean_quoted (String.singleton c)
    simp only [clean_append, hc, and_true]
    decide
  | unexpected text | noAttribute text =>
    have htext : Text.Clean text := h text List.mem_cons_self
    simp only [clean_append, htext, and_true]
    decide
  | expected wanted found =>
    obtain ⟨hwanted, hfound⟩ := forall_clean_pair.mp h
    simp only [clean_append, hwanted, hfound, and_true]
    decide

theorem SyntaxFault.Clean.message {fault : SyntaxFault} (h : fault.Clean) :
    Text.Clean fault.message := by
  unfold SyntaxFault.message
  cases fault with
  | noCondition => decide
  | invalidTag text | unexpectedTag text | unknownTag text _ | assign text | loop text
  | arguments text | unterminated text =>
    have htext : Text.Clean text := h text List.mem_cons_self
    simp only [clean_append, htext, and_true]
    decide
  | expression fault markup =>
    obtain ⟨hmarkup, hfault⟩ := List.forall_mem_cons.mp h
    have hfault := ExprFault.Clean.message hfault
    simp only [clean_append, hfault, hmarkup, and_true]
    decide
  | condition first second | inclusion first second =>
    obtain ⟨hfirst, hsecond⟩ := forall_clean_pair.mp h
    simp only [clean_append, hfirst, hsecond, and_true]
    decide
  | stated message suggestion => exact h message List.mem_cons_self

theorem SyntaxFault.Clean.suggestion {fault : SyntaxFault} (h : fault.Clean) :
    ∀ text ∈ fault.suggestion, Text.Clean text := by
  unfold SyntaxFault.suggestion
  cases fault with
  | unknownTag name closest =>
    intro text htext
    obtain ⟨other, hother, rfl⟩ := Option.map_eq_some_iff.mp htext
    have hother : Text.Clean other := h other (List.mem_cons_of_mem _ (by simp [hother]))
    simp only [clean_append, hother, and_true]
    decide
  | inclusion tag _ | arguments tag | unterminated tag =>
    have htag : Text.Clean tag := h tag List.mem_cons_self
    refine clean_some ?_
    simp only [clean_append, htag, and_true]
    decide
  | unexpectedTag _ | assign _ | loop _ => exact clean_some (by decide)
  | stated message suggestion =>
    exact fun text htext => h text (List.mem_cons_of_mem _ (Option.mem_toList.mpr htext))
  | _ => exact clean_none

theorem RuntimeFault.Clean.message {fault : RuntimeFault} (h : fault.Clean) :
    Text.Clean fault.message := by
  unfold RuntimeFault.message
  cases fault with
  | missingName => decide
  | bounds start stop =>
    obtain ⟨hstart, hstop⟩ := forall_clean_pair.mp h
    simp only [clean_append, hstart, hstop, and_true]
    decide
  | loopArgument text =>
    have htext : Text.Clean text := h _ List.mem_cons_self
    simp only [clean_append, htext, and_true]
    decide
  | reading key typeName message =>
    obtain ⟨hkey, h⟩ := List.forall_mem_cons.mp h
    obtain ⟨htype, hmessage⟩ := forall_clean_pair.mp h
    simp only [clean_append, hkey, htype, hmessage, and_true]
    decide
  | comparison left right =>
    obtain ⟨hleft, hright⟩ := forall_clean_pair.mp h
    simp only [clean_append, hleft, hright, and_true]
    decide
  | nameType typeName =>
    have htype : Text.Clean typeName := h _ List.mem_cons_self
    simp only [clean_append, htype, and_true]
    decide
  | depth limit name =>
    have hlimit : Text.Clean (toString limit) := clean_intRepr limit
    have hname : Text.Clean name := h _ List.mem_cons_self
    simp only [clean_append, hlimit, hname, and_true]
    decide
  | stated kind message suggestion => exact h message List.mem_cons_self

theorem RuntimeFault.Clean.suggestion {fault : RuntimeFault} (h : fault.Clean) :
    ∀ text ∈ fault.suggestion, Text.Clean text := by
  unfold RuntimeFault.suggestion
  cases fault with
  | missingName | depth _ _ => exact clean_some (by decide)
  | stated kind message suggestion =>
    exact fun text htext => h text (List.mem_cons_of_mem _ (Option.mem_toList.mpr htext))
  | _ => exact clean_none

theorem LoadError.clean_availableText {available : List String}
    (h : ∀ name ∈ available, Text.Clean name) : Text.Clean (availableText available) := by
  have hten := Text.Clean.intercalate (s := ", ") (by decide) fun name hname =>
    h name (List.take_subset 10 available hname)
  have hcount : Text.Clean (toString available.length) := clean_natRepr _
  unfold availableText
  split <;> simp only [clean_append, hten, hcount, and_true] <;> decide

theorem LoadError.Clean.message {e : LoadError} (h : e.Clean) : Text.Clean e.message := by
  unfold LoadError.message
  cases e with
  | noLoader name | declined name | outside name =>
    have hname : Text.Clean name := h name List.mem_cons_self
    simp only [clean_append, hname, and_true]
    decide
  | unknown name closest available =>
    obtain ⟨hname, h⟩ := List.forall_mem_cons.mp h
    obtain ⟨hclosest, havailable⟩ := List.forall_mem_append.mp h
    refine clean_append.mpr ⟨?_, ?_⟩
    · simp only [clean_append, hname, and_true]
      decide
    · cases closest with
      | some other =>
        have hother : Text.Clean other := hclosest other List.mem_cons_self
        simp only [clean_append, hother, and_true]
        decide
      | none =>
        dsimp only
        split
        · decide
        · exact clean_availableText havailable
  | nowhere name loaders =>
    have hname : Text.Clean name := h name List.mem_cons_self
    have hcount : Text.Clean (toString loaders) := clean_natRepr _
    simp only [clean_append, hname, hcount, and_true]
    decide
  | absent name directories =>
    obtain ⟨hname, hdirectories⟩ := List.forall_mem_cons.mp h
    have hdirectories := Text.Clean.intercalate (s := ", ") (by decide) hdirectories
    simp only [clean_append, hname, hdirectories, and_true]
    decide
  | stated message => exact h message List.mem_cons_self

end Stencil
