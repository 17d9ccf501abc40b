/-!
# The base schema

The elements that every store has: users, packages with their activities, and
attempts on them.  A derived schema declares more and extends these.
-/

namespace LearningStore.Schema

/-- The text of the base schema. -/
def baseText : String :=
  r#"<?xml version="1.0" encoding="utf-8"?>
<StoreSchema xmlns="urn:schemas-microsoft-com:learning-components:learning-store-schema">

  <Enum Name="AttemptStatus">
    <Documentation>
      <Summary>State of an attempt on a package.</Summary>
    </Documentation>
    <Values>
      <Value Name="Active" Value="0">
        <Documentation>The attempt is in progress.</Documentation>
      </Value>
      <Value Name="Suspended" Value="1">
        <Documentation>The learner left the attempt and may resume it.</Documentation>
      </Value>
      <Value Name="Abandoned" Value="2">
        <Documentation>The attempt ended without being completed.</Documentation>
      </Value>
      <Value Name="Completed" Value="3">
        <Documentation>The attempt ended normally.</Documentation>
      </Value>
    </Values>
  </Enum>

  <Enum Name="CompletionStatus">
    <Documentation>
      <Summary>Whether the learner completed an activity or attempt.</Summary>
    </Documentation>
    <Values>
      <Value Name="Unknown" Value="0"/>
      <Value Name="Completed" Value="1"/>
      <Value Name="Incomplete" Value="2"/>
      <Value Name="NotAttempted" Value="3"/>
    </Values>
  </Enum>

  <Enum Name="SuccessStatus">
    <Documentation>
      <Summary>Whether the learner passed an activity or attempt.</Summary>
    </Documentation>
    <Values>
      <Value Name="Unknown" Value="0"/>
      <Value Name="Failed" Value="1"/>
      <Value Name="Passed" Value="2"/>
    </Values>
  </Enum>

  <Enum Name="LessonStatus">
    <Documentation>
      <Summary>SCORM 1.2 status of an activity attempt.</Summary>
      <Remarks>
        SCORM 2004 content reports <Typ>CompletionStatus</Typ> and
        <Typ>SuccessStatus</Typ> instead.
      </Remarks>
    </Documentation>
    <Values>
      <Value Name="NotAttempted" Value="0"/>
      <Value Name="Browsed" Value="1"/>
      <Value Name="Completed" Value="2"/>
      <Value Name="Failed" Value="3"/>
      <Value Name="Incomplete" Value="4"/>
      <Value Name="Passed" Value="5"/>
    </Values>
  </Enum>

  <Enum Name="PackageFormat">
    <Documentation>
      <Summary>Format of an uploaded package.</Summary>
    </Documentation>
    <Values>
      <Value Name="Lrm" Value="0">
        <Documentation>Class Server learning resource.</Documentation>
      </Value>
      <Value Name="V1p2" Value="1">
        <Documentation>SCORM 1.2 package.</Documentation>
      </Value>
      <Value Name="V1p3" Value="2">
        <Documentation>SCORM 2004 package.</Documentation>
      </Value>
    </Values>
  </Enum>

  <ItemType Name="UserItem">
    <Documentation>
      <Summary>A user of the store.</Summary>
      <Remarks>
        Users are identified by <Fld>Key</Fld>, which the application assigns.
      </Remarks>
    </Documentation>
    <Properties>
      <Property Name="Key" Type="String" Length="250">
        <Documentation>
          <Summary>Unique key of the user.</Summary>
        </Documentation>
      </Property>
      <Property Name="Name" Type="String" Length="255">
        <Documentation>
          <Summary>Display name of the user.</Summary>
        </Documentation>
      </Property>
      <Property Name="AudioCaptioning" Type="Boolean">
        <Default>false</Default>
      </Property>
      <Property Name="AudioLevel" Type="Single">
        <Default>1</Default>
      </Property>
      <Property Name="DeliverySpeed" Type="Single">
        <Default>1</Default>
      </Property>
      <Property Name="Language" Type="String" Length="255" Nullable="true"/>
    </Properties>
    <Indexes>
      <Index>CREATE UNIQUE INDEX UserItem_Key ON UserItem([Key])</Index>
    </Indexes>
  </ItemType>

  <ItemType Name="PackageItem">
    <Documentation>
      <Summary>A package uploaded to the store.</Summary>
    </Documentation>
    <Properties>
      <Property Name="PackageFormat" Type="Enum" EnumName="PackageFormat"/>
      <Property Name="Location" Type="String" Length="260">
        <Documentation>
          <Summary>Where the package files are stored.</Summary>
        </Documentation>
      </Property>
      <Property Name="Owner" Type="ItemIdentifier" ReferencedItemTypeName="UserItem" Nullable="true"/>
      <Property Name="FileName" Type="String" Nullable="true"/>
      <Property Name="UploadDateTime" Type="DateTime">
        <Default IsFunction="true">GETUTCDATE()</Default>
      </Property>
      <Property Name="Manifest" Type="Xml"/>
      <Property Name="Warnings" Type="Xml" Nullable="true">
        <Default Null="true"/>
      </Property>
    </Properties>
  </ItemType>

  <ItemType Name="ActivityPackageItem">
    <Documentation>
      <Summary>An activity inside a package.</Summary>
    </Documentation>
    <Properties>
      <Property Name="PackageId" Type="ItemIdentifier" ReferencedItemTypeName="PackageItem" CascadeDelete="true"/>
      <Property Name="ActivityIdFromManifest" Type="String" Length="4000"/>
      <Property Name="OriginalPlacement" Type="Int32"/>
      <Property Name="ParentActivityId" Type="ItemIdentifier" ReferencedItemTypeName="ActivityPackageItem" Nullable="true"/>
      <Property Name="Title" Type="String" Length="8000"/>
      <Property Name="IsVisibleInContents" Type="Boolean">
        <Default>true</Default>
      </Property>
      <Property Name="MasteryScore" Type="Single" Nullable="true"/>
      <Property Name="ResourceParameters" Type="String" Nullable="true"/>
      <Property Name="DataModelCache" Type="Xml" Nullable="true"/>
    </Properties>
    <Indexes>
      <Index>
        CREATE INDEX ActivityPackageItem_PackageId
            ON ActivityPackageItem(PackageId)
      </Index>
    </Indexes>
  </ItemType>

  <ItemType Name="AttemptItem">
    <Documentation>
      <Summary>An attempt by a learner on a package.</Summary>
    </Documentation>
    <Properties>
      <Property Name="LearnerId" Type="ItemIdentifier" ReferencedItemTypeName="UserItem" CascadeDelete="true"/>
      <Property Name="PackageId" Type="ItemIdentifier" ReferencedItemTypeName="PackageItem" Nullable="true"/>
      <Property Name="RootActivityId" Type="ItemIdentifier" ReferencedItemTypeName="ActivityPackageItem" Nullable="true"/>
      <Property Name="AttemptStatus" Type="Enum" EnumName="AttemptStatus" Nullable="true"/>
      <Property Name="CompletionStatus" Type="Enum" EnumName="CompletionStatus">
        <Default>0</Default>
      </Property>
      <Property Name="SuccessStatus" Type="Enum" EnumName="SuccessStatus">
        <Default>0</Default>
      </Property>
      <Property Name="StartedTimestamp" Type="DateTime" Nullable="true"/>
      <Property Name="FinishedTimestamp" Type="DateTime" Nullable="true"/>
      <Property Name="TotalPoints" Type="Single" Nullable="true"/>
      <Property Name="LogDetailSequencing" Type="Boolean">
        <Default>false</Default>
      </Property>
      <Property Name="AttemptGuid" Type="Guid" RowGuid="true">
        <Default IsFunction="true">NEWID()</Default>
      </Property>
    </Properties>
    <Indexes>
      <Index>CREATE INDEX AttemptItem_LearnerId ON AttemptItem(LearnerId)</Index>
    </Indexes>
  </ItemType>

  <ItemType Name="ActivityAttemptItem">
    <Documentation>
      <Summary>The state of one activity within an attempt.</Summary>
    </Documentation>
    <Properties>
      <Property Name="AttemptId" Type="ItemIdentifier" ReferencedItemTypeName="AttemptItem" CascadeDelete="true"/>
      <Property Name="ActivityPackageId" Type="ItemIdentifier" ReferencedItemTypeName="ActivityPackageItem"/>
      <Property Name="AttemptCount" Type="Int32">
        <Default>0</Default>
      </Property>
      <Property Name="CompletionStatus" Type="Enum" EnumName="CompletionStatus">
        <Default>0</Default>
      </Property>
      <Property Name="SuccessStatus" Type="Enum" EnumName="SuccessStatus">
        <Default>0</Default>
      </Property>
      <Property Name="LessonStatus" Type="Enum" EnumName="LessonStatus" Nullable="true"/>
      <Property Name="Location" Type="String" Length="1000" Nullable="true"/>
      <Property Name="SuspendData" Type="String" Length="64000" Nullable="true"/>
      <Property Name="ScaledScore" Type="Single" Nullable="true">
        <Constraints>
          <Constraint>CHECK(ScaledScore BETWEEN -1 AND 1)</Constraint>
        </Constraints>
      </Property>
      <Property Name="SessionTime" Type="Double" Nullable="true"/>
      <Property Name="TotalTime" Type="Double" Nullable="true"/>
      <Property Name="SequencingDataCache" Type="ByteArray" Nullable="true"/>
    </Properties>
    <Indexes>
      <Index>CREATE INDEX ActivityAttemptItem_AttemptId ON ActivityAttemptItem(AttemptId)</Index>
    </Indexes>
  </ItemType>

  <View Name="ActivityPackageItemView">
    <Documentation>
      <Summary>Activities of every package with their placement in the tree.</Summary>
    </Documentation>
    <Columns>
      <Column Name="Id" Type="ItemIdentifier" ReferencedItemTypeName="ActivityPackageItem"/>
      <Column Name="PackageId" Type="ItemIdentifier" ReferencedItemTypeName="PackageItem"/>
      <Column Name="OriginalPlacement" Type="Int32"/>
      <Column Name="ParentActivityId" Type="ItemIdentifier" ReferencedItemTypeName="ActivityPackageItem"/>
    </Columns>
    <Implementation>
      SELECT Id, PackageId, OriginalPlacement, ParentActivityId
      FROM ActivityPackageItem
    </Implementation>
  </View>

  <View Name="AttemptItemView">
    <Documentation>
      <Summary>Attempts of one learner.</Summary>
    </Documentation>
    <Columns>
      <Column Name="Id" Type="ItemIdentifier" ReferencedItemTypeName="AttemptItem"/>
      <Column Name="PackageId" Type="ItemIdentifier" ReferencedItemTypeName="PackageItem"/>
      <Column Name="AttemptStatus" Type="Enum" EnumName="AttemptStatus"/>
      <Column Name="StartedTimestamp" Type="DateTime"/>
    </Columns>
    <Parameters>
      <Parameter Name="LearnerId" Type="ItemIdentifier" ReferencedItemTypeName="UserItem">
        <Documentation>
          <Summary>Learner whose attempts are returned.</Summary>
        </Documentation>
      </Parameter>
    </Parameters>
    <Implementation>
      SELECT Id, PackageId, AttemptStatus, StartedTimestamp
      FROM AttemptItem
      WHERE LearnerId = @LearnerId
    </Implementation>
  </View>

  <Right Name="CreateAttemptRight">
    <Documentation>
      <Summary>Permission to start an attempt on an activity tree.</Summary>
    </Documentation>
    <Parameters>
      <Parameter Name="RootActivityId" Type="ItemIdentifier" ReferencedItemTypeName="ActivityPackageItem"/>
      <Parameter Name="LearnerId" Type="ItemIdentifier" ReferencedItemTypeName="UserItem"/>
    </Parameters>
  </Right>

  <Right Name="DeleteAttemptRight">
    <Documentation>
      <Summary>Permission to delete an attempt.</Summary>
    </Documentation>
    <Parameters>
      <Parameter Name="AttemptId" Type="ItemIdentifier" ReferencedItemTypeName="AttemptItem"/>
    </Parameters>
  </Right>

</StoreSchema>
"#

/-- The name of the base schema in problems. -/
def baseName : String := "BaseSchema.xml"

end LearningStore.Schema
