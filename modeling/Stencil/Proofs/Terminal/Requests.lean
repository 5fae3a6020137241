import Stencil.Proofs.Clean.Rendering
import Stencil.Proofs.Render.Location

/-!
# Errors in colours

Where no name, no source and no value has an escape, an error shows the same text with colours as
without them, once the colour sequences are deleted.
-/

namespace Stencil

open Terminal

/-! ## Requests -/

/-- What a host asks an environment for. -/
inductive Request
  | parse (source : String) (name file : Option String) (isPartial : Bool)
  | load (name : String) (isPartial : Bool)
  | render (t : Template) (bindings : Frame)
  | renderNamed (name : String) (bindings : Frame)

/-- Some environment read the template from a source without escapes. -/
def Template.IsReadClean (t : Template) : Prop :=
  ∃ (env : Environment) (source : String) (name file : Option String) (isPartial : Bool),
    (∀ tag ∈ env.tags.names, Text.Clean tag) ∧ Text.Clean source ∧
    (∀ s ∈ name, Text.Clean s) ∧ env.parse source name file isPartial = .ok t

namespace Request

/-- No name, no source and no value that comes with the request has an escape. -/
def Clean : Request → Prop
  | .parse source name _ _ => Text.Clean source ∧ ∀ s ∈ name, Text.Clean s
  | .load name _ => Text.Clean name
  | .render t bindings => t.IsReadClean ∧ bindings.Clean
  | .renderNamed name bindings => Text.Clean name ∧ bindings.Clean

def Fails (env : Environment) (e : Error) : Request → Prop
  | .parse source name file isPartial => env.parse source name file isPartial = .error e
  | .load name isPartial => env.load name isPartial = .error e
  | .render t bindings => t.render env bindings = .error e
  | .renderNamed name bindings => env.render name bindings = .error e

theorem clean_error {env : Environment} (henv : env.Clean) {r : Request} (hr : r.Clean) {e : Error}
    (h : r.Fails env e) : e.Clean := by
  cases r with
  | parse source name file isPartial =>
    obtain ⟨hsource, hname⟩ := hr
    exact (Environment.yields_parse henv.tags hsource hname file isPartial).of_error h
  | load name isPartial => exact (Environment.yields_load henv hr isPartial).of_error h
  | render t bindings =>
    obtain ⟨⟨env', source, name, file, isPartial, htags, hsource, hname, hparse⟩, hbindings⟩ := hr
    -- Reading it once is what made the template clean; what it is rendered in may be another.
    have ht := (Environment.yields_parse htags hsource hname file isPartial).of_ok hparse
    exact (Template.yields_render henv hbindings ht).of_error h
  | renderNamed name bindings =>
    obtain ⟨hname, hbindings⟩ := hr
    exact (Environment.yields_render henv hbindings hname).of_error h

end Request

/-! ## Errors -/

/--
Without its colours, the error with which a request fails shows what it shows where there are none,
in full and on one screen. Its code is looked for in the coloured text, and is found there exactly
if it stands in the plain one.
-/
theorem colours_only_decorate {env : Environment} (henv : env.Clean) {r : Request} (hr : r.Clean)
    {e : Error} (h : r.Fails env e) (htemplate : e.isTemplateError) :
    String.ofList (uncoloured (e.message true).toList) = e.message false ∧
      String.ofList (uncoloured (e.compact true).toList) = e.compact false ∧
      ∀ code : ErrorCode, Text.occursIn code.text.toList (e.message true).toList =
        Text.occursIn code.text.toList (e.message false).toList := by
  have hclean := r.clean_error henv hr h
  have hmessage := e.decorates hclean htemplate
  have hcompact := e.decorates_compact hclean htemplate
  exact ⟨hmessage.uncoloured_eq, hcompact.uncoloured_eq, hmessage.search⟩

/-! ## A variable that nothing binds -/

theorem clean_strictBare : Render.strictBare.Clean :=
  ⟨nofun, List.forall_mem_nil _, by decide, Host.clean_plain⟩

theorem colours_only_decorate_outputPage :
    let e : Error := .undefined ⟨"x", some "page", some 2, []⟩
    Render.strictBare.Clean ∧ (Request.render Render.outputPage []).Clean ∧
      (Request.render Render.outputPage []).Fails Render.strictBare e ∧ e.isTemplateError ∧
      e.message true ≠ e.message false ∧
      String.ofList (uncoloured (e.message true).toList) = e.message false ∧
      String.ofList (uncoloured (e.compact true).toList) = e.compact false ∧
      ∀ code : ErrorCode, Text.occursIn code.text.toList (e.message true).toList =
        Text.occursIn code.text.toList (e.message false).toList := by
  have hread : Render.outputPage.IsReadClean :=
    ⟨Render.strictBare, Render.outputPage.source, some "page", none, false, by decide, by decide,
      Text.clean_some (by decide), Render.parse_outputPage⟩
  have hr : (Request.render Render.outputPage []).Clean := ⟨hread, List.forall_mem_nil _⟩
  exact ⟨clean_strictBare, hr, Render.render_outputPage, rfl, by decide,
    colours_only_decorate clean_strictBare hr Render.render_outputPage rfl⟩

end Stencil
