import BlockMarkup.Config
import BlockMarkup.Files

namespace BlockMarkup.Config

-- What reading the settings leaves to others: the format of the file they are in, and the parts of a
-- path that stand for something of the environment.
structure Library (ε : Type) where
  decode : Text → Except Text Config
  resolve? : ε → Text → Option Text
  fromHome : ε → Text → Text

namespace Library

variable {ε : Type} (library : Library ε) (environment : ε)

def joinPath (directory name : Text) : Text :=
  if directory = [] || directory.getLast? = some '/' then directory ++ name
  else directory ++ '/' :: name

def filePath : Text :=
  joinPath (library.fromHome environment "~/.config/mkly-editor".toList) "config.toml".toList

def expandPath (path : Text) : Text := (library.resolve? environment path).getD path

def expand (config : Config) : Config :=
  { config with document := config.document.map (library.expandPath environment) }

def ofText (t : Text) : Except ConfigError Config :=
  match library.decode t with
  | .ok config => config.check
  | .error reason => .error (.malformed reason)

def ofFile (content : Except FileError Text) : Except ConfigError (Option Config) :=
  match content with
  | .error (.notFound _) => .ok none
  | .error (.unusable reason) => .error (.unreadable reason)
  | .ok content => (fun config => some (library.expand environment config)) <$> library.ofText content

end Library
end BlockMarkup.Config
