import SqueezeboxConnect.ConnectDeck
import SqueezeboxConnect.ContextResolver
import SqueezeboxConnect.ContextRuns

/-!
# Loading an autoplay context

The first page of an autoplay context becomes the autoplay context. Everything
that goes through the code for further pages lands in the default context
instead, and so does what the entry of the resolver knows of its tracks.
-/

namespace AutoplayLoading

open Connect ConnectState ConnectDeck ContextResolver

def pageUris (page : ContextPage) : List String :=
  page.tracks.filterMap fun t => (t.item.map playedUri).toOption

variable {s : ConnectState}

section Merging

end Merging

section Pages

theorem filterMap_zipIdx {α β : Type} (f : α → Option β) (xs : List α) (n : Nat) :
    (xs.zipIdx n).filterMap (fun p => f p.1) = xs.filterMap f := by
  induction xs generalizing n with
  | nil => rfl
  | cons x rest ih => simp only [List.zipIdx_cons, List.filterMap_cons, ih]

theorem uri_contextToProvidedTrack (s : ConnectState) (t : ContextTrack)
    (contextUri : Option String)
    (contextIndex : Option Nat) (pageMetadata : Option Metadata) (provider : Option Provider)
    (uuid : String) :
    (s.contextToProvidedTrack t contextUri contextIndex pageMetadata provider uuid).toOption.map
      ProvidedTrack.uri = (t.item.map playedUri).toOption := by
  rw [contextToProvidedTrack]
  cases t.item <;> rfl

theorem uris_stateContextFromPage (s : ConnectState) (page : ContextPage) (metadata : Metadata)
    (restrictions : Option Restrictions) (newContextUri : Option String)
    (contextLength : Option Nat) (provider : Option Provider) (uuid : Nat → String) :
    (s.stateContextFromPage page metadata restrictions newContextUri contextLength provider
      uuid).tracks.vec.map ProvidedTrack.uri = pageUris page := by
  simp only [stateContextFromPage, ShuffleVec.ofVec, List.map_filterMap, uri_contextToProvidedTrack]
  exact filterMap_zipIdx (fun t => (t.item.map playedUri).toOption) page.tracks 0

variable {page : ContextPage}

variable {pages : List ContextPage}

end Pages

end AutoplayLoading
