import EntityQuery.Page.Basic
import EntityQuery.Reader
/-!
Reading a page from a record of its parts.
-/
namespace EntityQuery.Page

open Reader

def itemsName : FieldName := ⟨"items", "items"⟩
def totalName : FieldName := ⟨"total", "total"⟩
def limitName : FieldName := ⟨"limit", "limit"⟩
def offsetName : FieldName := ⟨"offset", "offset"⟩

/-- A field that has to be given. -/
def required {α : Type} (record : List (Value × Value)) (f : FieldName)
    (read : Value → Checked α) : Checked α :=
  field record f ((Checked.fail .missing).under (.name f.snake)) read

/-- The page that a record writes; its bounds may be any integers. -/
def ofRecord (record : List (Value × Value)) : Checked (Page Value) :=
  let items := required record itemsName .ok
  let total := required record totalName integer
  let limit := field record limitName (.ok none) (optional integer)
  let offset := field record offsetName (.ok none) (optional integer)
  (Checked.both items <| Checked.both total <| Checked.both limit offset).map
    fun (i, t, l, o) => ⟨i, t, l, o⟩

end EntityQuery.Page
