import EntityQuery.Model.Sample
import EntityQuery.Service.Router
/-!
The articles, the users and the products as published resources.
-/
namespace EntityQuery.Model

def articles : Resource where
  entity := "Article"
  title := "articles"
  fields := [⟨"id", .integer, false⟩, ⟨"title", .text, false⟩, ⟨"views", .integer, false⟩]

/-- The users, called people. -/
def people : Resource where
  entity := "User"
  title := "People"
  place := "/api/v1"
  fields := [⟨"id", .integer, false⟩, ⟨"name", .text, false⟩]

def products : Resource where
  entity := "Product"
  title := "products"
  place := "/shop"
  fields :=
    [⟨"id", .integer, false⟩, ⟨"name", .text, false⟩, ⟨"price", .float, true⟩,
     ⟨"active", .boolean, true⟩]

def router : Router := [articles, people, products]

end EntityQuery.Model
