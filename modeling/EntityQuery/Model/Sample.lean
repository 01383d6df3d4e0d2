import EntityQuery.Model.Blog
import EntityQuery.Model.Shop
/-!
The blog and the shop in one schema, with their rows and without any.
-/
namespace EntityQuery.Model

/-- All entities of the blog and the shop. -/
def sample : Schema where
  entities := Blog.schema.entities ++ Shop.schema.entities
  tables := Blog.schema.tables ++ Shop.schema.tables

/-- The rows of the blog and the shop. -/
def sampleRows : Database := ⟨Blog.rows.tables ++ Shop.rows.tables⟩

/-- Every table without rows. -/
def noRows : Database := ⟨sample.tables.map fun t => (t.name, [])⟩

end EntityQuery.Model
