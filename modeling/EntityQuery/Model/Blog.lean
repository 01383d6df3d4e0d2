import EntityQuery.Database
/-!
A blog: users write articles, users comment on them.
-/
namespace EntityQuery.Model.Blog

def integerKey : Column := { field := "id", name := "id", type := .integer, key := true }

def textColumn (name : String) : Column := { field := name, name := name, type := .text }

def integerColumn (name : String) : Column := { field := name, name := name, type := .integer }

def user : Entity where
  name := "User"
  scope := "blog"
  path := "User"
  root := "User"
  table := "users"
  columns := [integerKey, textColumn "name", textColumn "email"]
  relationships := [⟨"articles", "Article", .owns "id" "author_id", true⟩]

def article : Entity where
  name := "Article"
  scope := "blog"
  path := "Article"
  root := "Article"
  table := "articles"
  columns :=
    [integerKey, textColumn "title",
     { field := "views", name := "views", type := .integer, default := .integer 0 },
     { field := "deleted_at", name := "deleted_at", type := .moment, optional := true },
     integerColumn "author_id"]
  relationships :=
    [⟨"author", "User", .refers "author_id" "id", false⟩,
     ⟨"comments", "Comment", .owns "id" "article_id", true⟩]

def comment : Entity where
  name := "Comment"
  scope := "blog"
  path := "Comment"
  root := "Comment"
  table := "comments"
  columns := [integerKey, textColumn "text", integerColumn "article_id", integerColumn "author_id"]
  relationships :=
    [⟨"article", "Article", .refers "article_id" "id", false⟩,
     ⟨"author", "User", .refers "author_id" "id", false⟩]

def schema : Schema where
  entities := [user, article, comment]
  tables := [user, article, comment].map fun e => ⟨e.table, e.columns⟩

def userRow (id : Int) (name email : String) : Row :=
  [("id", .integer id), ("name", .text name), ("email", .text email)]

def articleRow (id : Int) (title : String) (views : Int) (deleted : Cell) (author : Int) : Row :=
  [("id", .integer id), ("title", .text title), ("views", .integer views), ("deleted_at", deleted),
   ("author_id", .integer author)]

def commentRow (id : Int) (text : String) (article author : Int) : Row :=
  [("id", .integer id), ("text", .text text), ("article_id", .integer article),
   ("author_id", .integer author)]

/-- Two users, three articles and three comments. -/
def rows : Database :=
  ⟨[("users", [userRow 1 "alice" "alice@example.com", userRow 2 "bob" "bob@example.com"]),
    ("articles",
      [articleRow 1 "Python tips" 120 .null 1, articleRow 2 "SQL basics" 15 .null 2,
       articleRow 3 "Old news" 40 (.text "2020-01-01 00:00:00.000000") 1]),
    ("comments", [commentRow 1 "great" 1 2, commentRow 2 "thanks" 1 1, commentRow 3 "meh" 2 1])]⟩

end EntityQuery.Model.Blog
