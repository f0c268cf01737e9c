/-!
# What can be wrong with a datasource

## Main definitions

* `ExternalError`: faults of a descriptor, of the metadata, and of the backend.
* `ExternalError.message?`: the sentence that tells of an error.
-/

namespace FederatedQuery

/-- A fault of a descriptor. -/
inductive DescriptorFault where
  /-- A document does not have the shape of a descriptor. -/
  | shape
  | emptySource
  | emptyTimeAttribute
  deriving DecidableEq

/-- A fault of the metadata that a backend reports. -/
inductive MetadataFault where
  | noSegments
  | noColumns
  | untypedColumn (name : String)
  | emptyListing
  /-- The listing of a datasource lacks one of its two lists. -/
  | listingWithout (key : String)
  deriving DecidableEq

/-- What went wrong with a datasource. -/
inductive ExternalError where
  | invalidStrategy (name : String)
  | unsupportedEngine (name : String)
  | invalidDescriptor (fault : DescriptorFault)
  | invalidResponse (fault : MetadataFault)
  /-- The backend's own message. -/
  | requester (message : String)
  deriving DecidableEq

/-- The sentence about a faulty descriptor; `none` for a document of the wrong shape. -/
def DescriptorFault.message? : DescriptorFault → Option String
  | .shape => none
  | .emptySource => some "source must not be empty"
  | .emptyTimeAttribute => some "timeAttribute must not be empty"

/-- The sentence about faulty metadata. -/
def MetadataFault.message : MetadataFault → String
  | .noSegments => "segmentMetadata returned no segments"
  | .noColumns => "segmentMetadata has no columns"
  | .untypedColumn name => "column '" ++ name ++ "' has no type"
  | .emptyListing => "datasource listing was empty"
  | .listingWithout key => "datasource listing has no " ++ key

/-- The sentence about an error; `none` for a document of the wrong shape. -/
def ExternalError.message? : ExternalError → Option String
  | .invalidStrategy name => some ("invalid introspectionStrategy '" ++ name ++ "'")
  | .unsupportedEngine name => some ("Unsupported engine: " ++ name)
  | .invalidDescriptor fault => fault.message?.map ("Invalid descriptor: " ++ ·)
  | .invalidResponse fault => some ("Invalid response: " ++ fault.message)
  | .requester message => some message

end FederatedQuery
