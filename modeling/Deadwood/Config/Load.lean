import Deadwood.Config.Layout
import Deadwood.Config.Tables
import Deadwood.Disk.Path

/-! Configuration from files. -/

namespace Deadwood.Config

/-- Files are laid out by indentation if their name says so, and in tables otherwise. -/
def isLayout (file : Bytes) : Bool :=
  [bytes ".yaml", bytes ".yml"].contains (Path.extension file).lower

def load (c : Config) (file content : Bytes) : Except LoadError Config :=
  if isLayout file then c.loadLayout content else c.loadTables content

end Deadwood.Config
