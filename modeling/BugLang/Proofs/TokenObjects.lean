import BugLang.Proofs.JsonReader
import BugLang.Proofs.TokenRows

/-!
# Objects of tokens are read back

A listing as JSON is an array with an object for each token.  By the grammar of JSON what is
printed denotes this array and no other value, whatever characters are in the texts of the tokens,
and the tokens are read back from the objects.

* `Json.denotedBy_document`: a document denotes the value that it was made for.
* `Listing.readJson?_json`: tokens are read back from their objects.
* `token_objects_read_back`: so is the listing of a source.
-/

namespace BugLang

/-- A value on lines of its own denotes itself, also with the end of the last line. -/
theorem Json.denotedBy_document (value : Json) :
    value.DenotedBy (CommandLine.Request.document value).toList := by
  refine ⟨[], value.pretty 0, ['\n'], ?_, nofun, value.spelledBy_pretty 0,
    by simp [IsBlanks, isBlank]⟩
  rw [CommandLine.Request.document, String.toList_ofList, List.nil_append]

namespace Listing

/-- Reads the token of an object. -/
def readObject? : Json → Option Located
  | .object [("line", .number line), ("kind", .string label), ("text", .string text)] =>
    (Kind.ofLabel? label).map fun kind => ⟨line, ⟨kind, text⟩⟩
  | _ => none

/-- Reads the tokens of an array of objects. -/
def readJson? : Json → Option (List Located)
  | .array items => items.mapM readObject?
  | _ => none

/-- The object of a token is read back. -/
theorem readObject?_object (a : Located) : readObject? (object a) = some a := by
  rw [object, readObject?, Kind.ofLabel?_label]
  rfl

/-- **The objects of tokens are read back.** -/
theorem readJson?_json (tokens : List Located) : readJson? (json tokens) = some tokens :=
  mapM_map_of_read fun a _ => readObject?_object a

end Listing

/-- **A listing as JSON is read back.**  What is printed for the tokens of a source denotes one
value only, and it is decoded to it: an array with an object for each token, in their order, that
has the line, the kind and the text of the token.  The tokens are read back from this value.  So
what is printed for two sources is the same if and only if they have the same tokens on the same
lines. -/
theorem token_objects_read_back (file : String) (quiet : Bool) (source : String) :
    (∀ value : Json,
      value.DenotedBy (CommandLine.printedTokens file .json quiet source) ↔
        value = .array ((Located.ofSource source).map fun a => .object
          [("line", .number a.line), ("kind", .string a.token.kind.label),
            ("text", .string a.token.text)])) ∧
      Json.decode? (CommandLine.printedTokens file .json quiet source) =
        some (Listing.json (Located.ofSource source)) ∧
      Listing.readJson? (Listing.json (Located.ofSource source)) =
        some (Located.ofSource source) ∧
      ∀ source', CommandLine.printedTokens file .json quiet source' =
          CommandLine.printedTokens file .json quiet source ↔
        Located.ofSource source' = Located.ofSource source := by
  have hprinted (source : String) : CommandLine.printedTokens file .json quiet source =
      (CommandLine.Request.document (Listing.json (Located.ofSource source))).toList := by
    rw [CommandLine.printedTokens, CommandLine.tokensOf_eq]
    rfl
  have hdenoted (source : String) : (Listing.json (Located.ofSource source)).DenotedBy
      (CommandLine.printedTokens file .json quiet source) := by
    rw [hprinted]
    exact Json.denotedBy_document _
  refine ⟨fun value => ⟨fun h => h.unique (hdenoted source), ?_⟩,
    Json.decode?_iff.mpr (hdenoted source), Listing.readJson?_json _, ?_⟩
  · rintro rfl
    exact hdenoted source
  · let write (tokens : List Located) :=
      (CommandLine.Request.document (Listing.json tokens)).toList
    let read (text : List Char) := (Json.decode? text).bind Listing.readJson?
    have hread (source : String) : read (CommandLine.printedTokens file .json quiet source) =
        some (Located.ofSource source) := by
      simp only [read]
      rw [Json.decode?_iff.mpr (hdenoted source), Option.bind_some, Listing.readJson?_json]
    exact @Listing.eq_iff_of_read (CommandLine.printedTokens file .json quiet) write read
      hprinted hread source

end BugLang
