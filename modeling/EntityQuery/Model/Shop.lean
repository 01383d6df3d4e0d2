import EntityQuery.Database
/-!
A shop: categories in a tree, products with tags, a detail and order lines, staff in one table
with engineers and managers among them, and storage bins with slots.
-/
namespace EntityQuery.Model.Shop

def idColumn : Column := { field := "id", name := "id", type := .integer, key := true }

def label (name : String) : Column := { field := name, name := name, type := .text }

def optionalColumn (name : String) (type : ColumnType) : Column :=
  { field := name, name := name, type := type, optional := true }

def category : Entity where
  name := "Category"
  scope := "shop"
  path := "Category"
  root := "Category"
  table := "categories"
  columns := [idColumn, label "name", optionalColumn "parent_id" .integer]
  relationships :=
    [⟨"parent", "Category", .refers "parent_id" "id", false⟩,
     ⟨"children", "Category", .owns "id" "parent_id", true⟩,
     ⟨"products", "Product", .owns "id" "category_id", true⟩]

def product : Entity where
  name := "Product"
  scope := "shop"
  path := "Product"
  root := "Product"
  table := "products"
  columns :=
    [idColumn, label "name",
     { field := "price", name := "unit_price", type := .float, optional := true },
     optionalColumn "active" .boolean, optionalColumn "category_id" .integer]
  relationships :=
    [⟨"category", "Category", .refers "category_id" "id", false⟩,
     ⟨"tags", "Tag", .through "product_tags" "id" "product_id" "id" "tag_id", true⟩,
     ⟨"detail", "ProductDetail", .owns "id" "product_id", false⟩,
     ⟨"lines", "OrderLine", .owns "id" "product_id", true⟩]

def tag : Entity where
  name := "Tag"
  scope := "shop"
  path := "Tag"
  root := "Tag"
  table := "tags"
  columns := [idColumn, label "label"]
  relationships :=
    [⟨"products", "Product", .through "product_tags" "id" "tag_id" "id" "product_id", true⟩]

def productDetail : Entity where
  name := "ProductDetail"
  scope := "shop"
  path := "ProductDetail"
  root := "ProductDetail"
  table := "product_details"
  columns := [idColumn, optionalColumn "note" .text, optionalColumn "product_id" .integer]
  relationships := [⟨"product", "Product", .refers "product_id" "id", false⟩]

def orderLine : Entity where
  name := "OrderLine"
  scope := "shop"
  path := "OrderLine"
  root := "OrderLine"
  table := "order_lines"
  columns :=
    [{ field := "order_no", name := "order_no", type := .integer, key := true },
     { field := "line_no", name := "line_no", type := .integer, key := true },
     optionalColumn "qty" .integer, optionalColumn "placed_at" .moment,
     optionalColumn "product_id" .integer]
  relationships := [⟨"product", "Product", .refers "product_id" "id", false⟩]

def staffColumns : List Column :=
  [idColumn, label "kind", label "name", optionalColumn "boss_id" .integer]

def language : Column := optionalColumn "language" .text

def level : Column := optionalColumn "level" .integer

def boss : Relationship := ⟨"boss", "Staff", .refers "boss_id" "id", false⟩

def staff : Entity where
  name := "Staff"
  scope := "shop"
  path := "Staff"
  root := "Staff"
  table := "staff"
  columns := staffColumns
  relationships := [boss]
  family := some ⟨"kind", "staff"⟩

def engineer : Entity :=
  { staff with
    name := "Engineer", path := "Engineer", columns := staffColumns ++ [language],
    family := some ⟨"kind", "engineer"⟩ }

def manager : Entity :=
  { staff with
    name := "Manager", path := "Manager", columns := staffColumns ++ [level],
    family := some ⟨"kind", "manager"⟩ }

def bin : Entity where
  name := "Bin"
  scope := "shop"
  path := "Depot.Bin"
  root := "Depot.Bin"
  table := "bins"
  columns := [idColumn, label "code"]
  relationships := [⟨"slots", "Slot", .owns "id" "bin_id", true⟩]

def slot : Entity where
  name := "Slot"
  scope := "shop"
  path := "Slot"
  root := "Slot"
  table := "slots"
  columns := [idColumn, optionalColumn "bin_id" .integer]
  relationships := [⟨"bin", "Bin", .refers "bin_id" "id", false⟩]

/-- The table that links products and tags. -/
def productTags : TableShape where
  name := "product_tags"
  columns :=
    [{ field := "product_id", name := "product_id", type := .integer, key := true },
     { field := "tag_id", name := "tag_id", type := .integer, key := true }]

def schema : Schema where
  entities :=
    [category, product, tag, productDetail, orderLine, staff, engineer, manager, bin, slot]
  tables :=
    [category, product, tag, productDetail, orderLine, bin, slot].map
      (fun e => ⟨e.table, e.columns⟩) ++
    [productTags, ⟨"staff", staffColumns ++ [language, level]⟩]

def optionalInteger (n : Option Int) : Cell := (n.map Cell.integer).getD .null

def optionalText (s : Option String) : Cell := (s.map Cell.text).getD .null

def categoryRow (id : Int) (name : String) (parent : Option Int) : Row :=
  [("id", .integer id), ("name", .text name), ("parent_id", optionalInteger parent)]

/-- A product whose price is given in hundredths. -/
def productRow (id : Int) (name : String) (cents : Option Nat) (active : Option Bool)
    (category : Option Int) : Row :=
  [("id", .integer id), ("name", .text name),
   ("unit_price", (cents.map fun c => Cell.real (Double.ofRatio false c 100)).getD .null),
   ("active", optionalInteger (active.map fun b => if b then 1 else 0)),
   ("category_id", optionalInteger category)]

def orderLineRow (order line : Int) (qty : Option Int) (placed : Option String)
    (product : Option Int) : Row :=
  [("order_no", .integer order), ("line_no", .integer line), ("qty", optionalInteger qty),
   ("placed_at", optionalText placed), ("product_id", optionalInteger product)]

def staffRow (id : Int) (kind name : String) (boss : Option Int) (language : Option String)
    (level : Option Int) : Row :=
  [("id", .integer id), ("kind", .text kind), ("name", .text name),
   ("boss_id", optionalInteger boss), ("language", optionalText language),
   ("level", optionalInteger level)]

/-- The stock of the shop. -/
def rows : Database :=
  ⟨[("categories",
      [categoryRow 1 "root" none, categoryRow 2 "tools" (some 1), categoryRow 3 "toys" (some 1),
       categoryRow 4 "hand tools" (some 2), categoryRow 5 "empty" none]),
    ("products",
      [productRow 1 "Hammer" (some 1950) (some true) (some 4),
       productRow 2 "saw" (some 725) (some false) (some 4),
       productRow 3 "Robot" (some 9900) (some true) (some 3),
       productRow 4 "100%_sure" none none none,
       productRow 5 "Äpfel" (some 50) (some true) (some 3)]),
    ("tags", [(1, "steel"), (2, "sale"), (3, "unused")].map fun (id, name) =>
      [("id", .integer id), ("label", .text name)]),
    ("product_tags", [(1, 1), (1, 2), (2, 1), (3, 2)].map fun (p, t) =>
      [("product_id", .integer p), ("tag_id", .integer t)]),
    ("product_details", [(1, some "heavy", 1), (2, none, 3)].map fun (id, note, p) =>
      [("id", .integer id), ("note", optionalText note), ("product_id", .integer p)]),
    ("order_lines",
      [orderLineRow 1 1 (some 3) (some "2024-01-02 03:04:05.000000") (some 1),
       orderLineRow 1 2 (some 1) (some "2024-01-02 03:04:05.000000") (some 2),
       orderLineRow 2 1 (some 10) (some "2024-02-29 00:00:00.123456") (some 1),
       orderLineRow 3 1 none none none]),
    ("staff",
      [staffRow 1 "manager" "Mia" none none (some 3),
       staffRow 2 "engineer" "Eve" (some 1) (some "lean") none,
       staffRow 3 "engineer" "Ed" (some 1) none none,
       staffRow 4 "staff" "Sam" (some 2) none none]),
    ("bins", [[("id", .integer 1), ("code", .text "A1")]]),
    ("slots", [(1, some 1), (2, some 1), (3, none)].map fun (id, bin) =>
      [("id", .integer id), ("bin_id", optionalInteger bin)])]⟩

end EntityQuery.Model.Shop
